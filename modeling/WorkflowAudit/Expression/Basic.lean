import WorkflowAudit.Binary64.Basic
import WorkflowAudit.Text.Basic

/-!
Workflow expressions. Names of contexts and functions are kept as written and compared without
regard to the case of ASCII letters.
-/

namespace WorkflowAudit

inductive BinaryOp where
  | and
  | or
  | equal
  | notEqual
  deriving DecidableEq, Repr

inductive Expression where
  | number (value : Binary64)
  | text (s : String)
  | name (s : String)
  | call (function : String) (args : List Expression)
  | binary (op : BinaryOp) (lhs rhs : Expression)
  | not (e : Expression)
  deriving Repr, Inhabited

namespace Expression

def isGithub (name : String) : Bool :=
  match Text.splitChars '.' name.toList with
  | head :: _ => Text.sameIgnoringCase (String.ofList head) "github"
  | [] => false

/-- The names `true` and `false` are values, not contexts. -/
def isBoolean (name : String) : Bool :=
  Text.sameIgnoringCase name "true" || Text.sameIgnoringCase name "false"

mutual

def same : Expression → Expression → Bool
  | .number x, .number y => x.equal y
  | .text a, .text b => a == b
  | .name a, .name b => Text.sameIgnoringCase a b
  | .call f as, .call g bs => Text.sameIgnoringCase f g && sameAll as bs
  | .binary op a b, .binary op' a' b' => op == op' && same a a' && same b b'
  | .not a, .not b => same a b
  | _, _ => false

def sameAll : List Expression → List Expression → Bool
  | [], [] => true
  | a :: as, b :: bs => same a b && sameAll as bs
  | _, _ => false

end

mutual

/-- The contexts that an expression mentions, in the order in which they are written. -/
def contexts : Expression → List String
  | .name s => if isBoolean s then [] else [s]
  | .call _ args => contextsOfAll args
  | .binary _ l r => contexts l ++ contexts r
  | .not e => contexts e
  | .number _ | .text _ => []

def contextsOfAll : List Expression → List String
  | [] => []
  | e :: rest => contexts e ++ contextsOfAll rest

end

end Expression

end WorkflowAudit
