import WorkflowAudit.Evaluation.Value
import WorkflowAudit.Json.Reader

/-!
Function calls over values that are already known.
-/

namespace WorkflowAudit.Evaluation

inductive EvalError where
  | unsupported (what : String)
  | arity (function expected : String) (actual : Nat)
  deriving DecidableEq, Repr

def EvalError.message : EvalError → String
  | .unsupported what => "not implemented: " ++ what
  | .arity function expected actual =>
    function ++ " expects " ++ expected ++ " argument(s), got " ++ Text.ofNat actual

inductive Builtin where
  | contains
  | startsWith
  | endsWith
  | fromJson
  | toJson
  | format
  /-- A check on the state of the run, with the answer of the worst case. -/
  | status (answer : Bool)
  deriving DecidableEq, Repr

namespace Builtin

def table : List (String × Builtin) :=
  [("contains", contains), ("startsWith", startsWith), ("endsWith", endsWith),
   ("fromJSON", fromJson), ("toJSON", toJson), ("format", format),
   ("success", status true), ("always", status true), ("failure", status true),
   ("cancelled", status false)]

def ofName? (name : String) : Option Builtin :=
  (table.find? fun f => Text.sameIgnoringCase f.1 name).map (·.2)

/-- The numbers of arguments that a function takes, in words. -/
def arity : Builtin → String
  | contains | startsWith | endsWith => "2"
  | fromJson | toJson => "1"
  | format => "at least 1"
  | status _ => "0"

/-- Text with an affix is looked at letter by letter; anything else is compared as a whole. -/
def affix (matched : String → String → Bool) : Value → Value → Value
  | .text search, .text affix => .bool (matched (Text.lowercase affix) (Text.lowercase search))
  | search, affix => .bool (search.couldEqual affix)

/-- The value that a text spells in JSON; any other text stands for itself. -/
def parsed : Value → Value
  | .text s =>
    match Json.read? s with
    | some v => .ofJson v
    | none => .text s
  | v => v

/-- The result of a call with a number of arguments that the function takes. Formatting answers the
first value put into the template, which is what an outsider aims at. -/
def result? : Builtin → List Value → Option Value
  | contains, [search, item] => some (.bool (search.couldContain item))
  | startsWith, [search, item] => some (affix Text.startsWith search item)
  | endsWith, [search, item] => some (affix Text.endsWith search item)
  | fromJson, [v] => some (parsed v)
  | toJson, [v] => some v
  | format, [template] => some template
  | format, _ :: first :: _ => some first
  | status answer, [] => some (.bool answer)
  | _, _ => none

end Builtin

def call (function : String) (args : List Value) : Except EvalError Value :=
  match Builtin.ofName? function with
  | none => .error (.unsupported (function ++ "()"))
  | some f =>
    match f.result? args with
    | some v => .ok v
    | none => .error (.arity function f.arity args.length)

end WorkflowAudit.Evaluation
