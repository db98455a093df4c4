import WorkflowAudit.Expression.Basic
import WorkflowAudit.Expression.Token

/-!
Reading expressions. `||` binds loosest, then `&&`, then `==` and `!=`, then `!`; operators of one
level associate to the left.
-/

namespace WorkflowAudit.Expression

/-- The levels of binding, loosest first. -/
inductive Level where
  | disjunction
  | conjunction
  | comparison
  | operand
  deriving DecidableEq, Repr

namespace Level

def tighter : Level → Level
  | disjunction => conjunction
  | conjunction => comparison
  | comparison => operand
  | operand => operand

def operator? : Level → Token → Option BinaryOp
  | disjunction, .or => some .or
  | conjunction, .and => some .and
  | comparison, .equal => some .equal
  | comparison, .notEqual => some .notEqual
  | _, _ => none

end Level

mutual

/-- The longest expression of a level at the head of the words. -/
def parseLevel : Nat → Level → List Token → Option (Expression × List Token)
  | 0, _, _ => none
  | fuel + 1, .operand, ts =>
    match ts with
    | .not :: rest =>
      match parseLevel fuel .operand rest with
      | some (e, rest) => some (.not e, rest)
      | none => none
    | .opening :: rest =>
      match parseLevel fuel .disjunction rest with
      | some (e, .closing :: rest) => some (e, rest)
      | _ => none
    | .number x :: rest => some (.number x, rest)
    | .text s :: rest => some (.text s, rest)
    | .name s :: rest => some (.name s, rest)
    | .call f :: .closing :: rest => some (.call f [], rest)
    | .call f :: rest =>
      match parseArguments fuel rest with
      | some (args, rest) => some (.call f args, rest)
      | none => none
    | _ => none
  | fuel + 1, level, ts =>
    match parseLevel fuel level.tighter ts with
    | some (e, rest) => parseChain fuel level e rest
    | none => none

/-- Further operands of a level, each joined to all that stands before it. -/
def parseChain : Nat → Level → Expression → List Token → Option (Expression × List Token)
  | 0, _, _, _ => none
  | fuel + 1, level, lhs, ts =>
    match ts with
    | [] => some (lhs, [])
    | t :: rest =>
      match level.operator? t with
      | none => some (lhs, t :: rest)
      | some op =>
        match parseLevel fuel level.tighter rest with
        | some (rhs, rest) => parseChain fuel level (.binary op lhs rhs) rest
        | none => none

def parseArguments : Nat → List Token → Option (List Expression × List Token)
  | 0, _ => none
  | fuel + 1, ts =>
    match parseLevel fuel .disjunction ts with
    | some (e, .comma :: rest) =>
      match parseArguments fuel rest with
      | some (es, rest) => some (e :: es, rest)
      | none => none
    | some (e, .closing :: rest) => some ([e], rest)
    | _ => none

end

/-- The expression that a list of words spells. Five calls are enough for each word. -/
def ofTokens? (ts : List Token) : Option Expression :=
  match parseLevel (5 * ts.length + 5) .disjunction ts with
  | some (e, []) => some e
  | _ => none

/-- The text without blanks around it and without a fence of dollar and double braces. -/
def unfence (cs : List Char) : List Char :=
  let inner := Text.trimChars cs
  match Text.afterFront ['$', '\x7b', '\x7b'] inner with
  | some rest =>
    match Text.beforeBack ['\x7d', '\x7d'] rest with
    | some body => Text.trimChars body
    | none => inner
  | none => inner

def parse? (s : String) : Option Expression :=
  (Token.ofChars (unfence s.toList)).bind ofTokens?

end WorkflowAudit.Expression
