import WorkflowAudit.Evaluation.Call
import WorkflowAudit.Evaluation.Environment
import WorkflowAudit.Expression.Parser

/-!
Evaluation of expressions, and whether a condition could be met. Both sides of every operator are
evaluated, so what is not supported anywhere in an expression is an error of the whole.
-/

namespace WorkflowAudit.Evaluation

/-- Two contexts, at least one of them written by the outsider, are equal only when they have one
name. -/
def comparedByName (lhs rhs : Expression) (l r : Value) : Option Bool :=
  match lhs, rhs with
  | .name a, .name b =>
    if Expression.isGithub a && Expression.isGithub b && (l.isWildcard || r.isWildcard) then
      some (Text.sameIgnoringCase a b)
    else none
  | _, _ => none

def operate (op : BinaryOp) (lhs rhs : Expression) (l r : Value) : Bool :=
  match op with
  | .and => l.truthy && r.truthy
  | .or => l.truthy || r.truthy
  | .equal => (comparedByName lhs rhs l r).getD (l.couldEqual r)
  | .notEqual => ((comparedByName lhs rhs l r).map (!·)).getD (l.couldDiffer r)

/-- The value of a name. A context of `github` without a binding is written by the outsider. -/
def nameValue (env : Environment) (name : String) : Except EvalError Value :=
  if Text.sameIgnoringCase name "true" then .ok (.bool true)
  else if Text.sameIgnoringCase name "false" then .ok (.bool false)
  else if Expression.isGithub name then .ok ((env.lookup name).getD (.wildcard name))
  else .error (.unsupported name)

mutual

def evaluate (env : Environment) : Expression → Except EvalError Value
  | .number x => .ok (.number x)
  | .text s => .ok (.text s)
  | .name s => nameValue env s
  | .call f args =>
    match evaluateAll env args with
    | .ok vs => call f vs
    | .error e => .error e
  | .not e =>
    match evaluate env e with
    | .ok v => .ok (.bool v.falsy)
    | .error e => .error e
  | .binary op lhs rhs =>
    match evaluate env lhs with
    | .error e => .error e
    | .ok l =>
      match evaluate env rhs with
      | .error e => .error e
      | .ok r => .ok (.bool (operate op lhs rhs l r))

def evaluateAll (env : Environment) : List Expression → Except EvalError (List Value)
  | [] => .ok []
  | e :: rest =>
    match evaluate env e with
    | .error e => .error e
    | .ok v =>
      match evaluateAll env rest with
      | .error e => .error e
      | .ok vs => .ok (v :: vs)

end

inductive Satisfiability where
  | definite (b : Bool)
  | unknown
  deriving DecidableEq, Repr

namespace Satisfiability

/-- A blank condition is always met. -/
def of (condition : String) (env : Environment) : Satisfiability :=
  if Text.isBlankText condition then .definite true
  else
    match Expression.parse? condition with
    | none => .unknown
    | some e =>
      match evaluate env e with
      | .ok v => .definite v.truthy
      | .error _ => .unknown

/-- What is not known counts as reachable. -/
def isReachable (s : Satisfiability) : Bool := s != .definite false

end Satisfiability

end WorkflowAudit.Evaluation
