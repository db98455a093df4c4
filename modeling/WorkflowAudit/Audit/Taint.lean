import WorkflowAudit.Classification.Tables
import WorkflowAudit.Context.Scan
import WorkflowAudit.Finding.Basic
import WorkflowAudit.Text.Order

/-!
Which contexts of the outsider's a value depends on, given what is known of the names it refers to.
-/

namespace WorkflowAudit

/-- The contexts of the outsider's that a value carries, in ascending order. -/
abbrev Taint := List String

/-- The names that a value may refer to, with what their values carry. -/
structure Scope where
  env : Assoc Taint
  /-- The environment of the current step, which comes before `env`. -/
  stepEnv : Assoc Taint
  inputs : Assoc Taint
  /-- The outputs of jobs, under the whole name `needs.job.outputs.name`. -/
  outputs : Assoc Taint
  deriving DecidableEq, Repr

namespace Scope

def empty : Scope := ⟨[], [], [], []⟩

/-- Contexts whose values are known only when the workflow runs. -/
def opaquePrefixes : List String := ["env.", "inputs.", "needs.", "steps.", "jobs."]

/-- A context that an outsider may influence, and that stands for itself. -/
def isRoot (token : String) : Bool :=
  !Classification.isStatic token && !opaquePrefixes.any (Text.startsWith · token)

/-- What a table says of a name, unless that is nothing. -/
def carried (origin : Origin) (taint : Option Taint) : Option (Origin × Taint) :=
  match taint with
  | none | some [] => none
  | some t => some (origin, t)

/-- How a token reaches the outsider, and by which contexts. -/
def resolve (s : Scope) (token : String) : Option (Origin × Taint) :=
  if Classification.isStatic token then none
  else
    match Text.dropFront "env." token with
    | some name => carried .env (s.stepEnv.get? name <|> s.env.get? name)
    | none =>
      match Text.dropFront "inputs." token with
      | some name => carried .input (s.inputs.get? name)
      | none =>
        if Text.startsWith "needs." token then carried .output (s.outputs.get? token)
        else if isRoot token then some (.direct, [token])
        else none

def resolveToken (s : Scope) (token : String) : List Implicated :=
  match s.resolve token with
  | some (origin, taint) =>
    taint.map fun t => ⟨t, origin, if origin = .direct then none else some token⟩
  | none => []

/-- A body that has no reading and mentions no context counts as one of the outsider's. -/
def isUnreadable (body : String) : Bool :=
  (Context.tokens body).isEmpty && (Expression.parse? body).isNone

def resolveBody (s : Scope) (body : String) : List Implicated :=
  if isUnreadable body then [⟨body, .direct, none⟩]
  else (Context.tokens body).flatMap s.resolveToken

/-- What the bodies depend on, in order, each once. -/
def implicated (s : Scope) (bodies : List String) : List Implicated :=
  (bodies.flatMap s.resolveBody).eraseDups

def taint (s : Scope) (text : String) : Taint :=
  Text.ascending (((Context.bodies text).flatMap s.resolveBody).map (·.token))

def taints (s : Scope) (values : Assoc String) : Assoc Taint :=
  .ofList (values.map fun e => (e.1, s.taint e.2))

/-- Puts values into the environment, each resolved with those before it. -/
def withEnv (s : Scope) (values : Assoc String) : Scope :=
  values.foldl (fun s e => { s with env := s.env.insert e.1 (s.taint e.2) }) s

end Scope

end WorkflowAudit
