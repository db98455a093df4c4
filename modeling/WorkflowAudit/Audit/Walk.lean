import WorkflowAudit.Audit.Taint
import WorkflowAudit.Graph.Search
import WorkflowAudit.Source.Cache

/-!
The walk along a path of a graph, which gathers what the values on the path carry and which gates
guard it. Some paths are ruled out: an outsider gains nothing from the workflows of a fork, and the
jobs that wait for one that fails never run.
-/

namespace WorkflowAudit

open WorkflowAudit.Graph (Node)
open Source (Knowledge Lookup)

structure Walk where
  scope : Scope
  /-- An approval or a check of permissions guards the rest of the path. -/
  approvalGate : Bool
  softGated : Bool
  job : Option Nat
  deriving DecidableEq, Repr

namespace Walk

def start : Walk := ⟨.empty, false, false, none⟩

structure Place where
  isFirst : Bool
  previous : Option Nat
  current : Nat
  following : Option Nat
  deriving DecidableEq, Repr

def placesFrom (previous : Option Nat) : List Nat → List Place
  | [] => []
  | i :: rest => ⟨previous.isNone, previous, i, rest.head?⟩ :: placesFrom (some i) rest

def places (path : List Nat) : List Place := placesFrom none path

def entersSteps (g : Graph) (p : Place) : Bool := p.following.any (g.stepsOf p.current).contains

/-- Whether the search from a job comes to a step of it that carries a tag. -/
def reachesOwnStep (g : Graph) (job : Nat) (tag : String) : Bool :=
  (g.paths job tag).any fun path => path.getLast?.any (g.stepsOf job).contains

/-- Whether a job that the path leaves has a step with a tag that the search comes to. Where the
path goes into the steps of the job, the search has seen to its gates already. -/
def leavesBehind (g : Graph) (p : Place) (tag : String) : Bool :=
  !entersSteps g p && reachesOwnStep g p.current tag

/-- What rules a path out: a first workflow in a fork, and a job that fails before the path goes
on. -/
def isRuledOut (k : Knowledge) (g : Graph) (p : Place) : Bool :=
  match g.nodes[p.current]? with
  | some (.workflow w) => p.isFirst && k.isFork w.repo
  | some (.job _) => leavesBehind g p "permission_blocker"
  | _ => false

def nodeAt (g : Graph) (i : Option Nat) : Option Node := i.bind (g.nodes[·]?)

/-- A called workflow has the inputs of the call, and no environment but its own. -/
def enterWorkflow (w : Graph.Workflow) (caller : Option Node) (walk : Walk) : Walk :=
  let scope := match caller with
    | some (.job j) => { walk.scope with inputs := walk.scope.taints j.inputs, env := [] }
    | _ => walk.scope
  { walk with scope := scope.withEnv w.env }

def outputName (j : Graph.Job) (name : String) : String :=
  "needs." ++ j.job ++ ".outputs." ++ name

def addOutputs (j : Graph.Job) (scope : Scope) : Scope :=
  j.outputs.foldl
    (fun s e => { s with outputs := s.outputs.insert (outputName j e.1) (s.taint e.2) }) scope

def enterJob (k : Knowledge) (g : Graph) (p : Place) (j : Graph.Job) (walk : Walk) : Walk :=
  { scope := addOutputs j (walk.scope.withEnv j.env)
    approvalGate := walk.approvalGate || j.environment.any (k.isProtected j.repo) ||
      leavesBehind g p "permission_check"
    softGated := walk.softGated
    job := some p.current }

def enterStep (s : Graph.Step) (walk : Walk) : Walk :=
  { walk with
    scope := { walk.scope with stepEnv := walk.scope.taints s.env }
    softGated := walk.softGated || s.traits.softGate }

/-- An action has the inputs of the step that uses it, and sees the environment of that step. -/
def enterAction (caller : Option Node) (walk : Walk) : Walk :=
  match caller with
  | some (.step s) =>
    let scope := walk.scope
    { walk with
      scope := { scope with
        inputs := scope.taints s.inputs
        env := scope.stepEnv.foldl (fun env e => env.insert e.1 e.2) scope.env
        stepEnv := [] } }
  | _ => walk

def enter (k : Knowledge) (g : Graph) (walk : Walk) (p : Place) : Walk :=
  let caller := nodeAt g p.previous
  match g.nodes[p.current]? with
  | some (.workflow w) => enterWorkflow w caller walk
  | some (.job j) => enterJob k g p j walk
  | some (.step s) => enterStep s walk
  | some (.action _) => enterAction caller walk
  | _ => walk

/-- The walk along a path, unless the path is ruled out. -/
def along (k : Knowledge) (g : Graph) (path : List Nat) : Option Walk :=
  if (places path).any (isRuledOut k g) then none
  else some ((places path).foldl (enter k g) start)

def lookupsAt (g : Graph) (p : Place) : List Lookup :=
  match g.nodes[p.current]? with
  | some (.workflow w) => if p.isFirst then [.repository w.repo] else []
  | some (.job j) => if j.environment.isSome then [.environments j.repo] else []
  | _ => []

def lookupsFrom (k : Knowledge) (g : Graph) : List Place → List Lookup
  | [] => []
  | p :: rest => lookupsAt g p ++ if isRuledOut k g p then [] else lookupsFrom k g rest

/-- What the walk along a path looks up, up to the place that rules the path out. -/
def lookups (k : Knowledge) (g : Graph) (path : List Nat) : List Lookup :=
  lookupsFrom k g (places path)

def finding? (g : Graph) (path : List Nat) (walk : Walk) (confidence : Confidence)
    (details : Details) : Option Finding :=
  match nodeAt g path.head?, nodeAt g path.getLast? with
  | some (.workflow w), some (.step s) =>
    let job := match nodeAt g walk.job with
      | some (.job j) => some j
      | _ => none
    some
      { repo := w.repo
        workflow := w.path
        job := job.map (·.job)
        step := s.label
        stepName := s.name
        triggers := w.triggers
        confidence := confidence
        selfHosted := job.any (·.selfHosted)
        path := path.filterMap fun i => g.nodes[i]?.map (·.key)
        details := details }
  | _, _ => none

end Walk

end WorkflowAudit
