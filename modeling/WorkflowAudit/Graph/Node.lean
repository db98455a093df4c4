import WorkflowAudit.Classification.Job
import WorkflowAudit.Classification.Step
import WorkflowAudit.Graph.Condition
import WorkflowAudit.Text.Order
import WorkflowAudit.Yaml.Printer

/-!
The nodes of a graph: repositories, workflows, jobs, steps and actions. A node is known by its kind
and its name; the name is put together from the repository, the reference, the path, the job and the
step that the node stands for.
-/

namespace WorkflowAudit.Graph

inductive Kind where
  | repo
  | workflow
  | job
  | step
  | action
  deriving DecidableEq, Repr

namespace Kind

def name : Kind → String
  | repo => "repo"
  | workflow => "workflow"
  | job => "job"
  | step => "step"
  | action => "action"

def tag : Kind → String
  | repo => "RepoNode"
  | workflow => "WorkflowNode"
  | job => "JobNode"
  | step => "StepNode"
  | action => "ActionNode"

end Kind

structure Key where
  kind : Kind
  name : String
  deriving DecidableEq, Repr

def documentName (repo ref path : String) : String := repo ++ ":" ++ ref ++ ":" ++ path

def jobName (parent job : String) : String := parent ++ ":" ++ job

def stepName (parent : String) (index : Nat) : String := parent ++ ":" ++ Text.ofNat index

structure Workflow where
  repo : String
  ref : String
  path : String
  displayName : Option String
  initialized : Bool
  triggers : List String
  env : Assoc String
  deriving DecidableEq, Repr

structure Job where
  name : String
  repo : String
  job : String
  uses : Option String
  env : Assoc String
  inputs : Assoc String
  outputs : Assoc String
  environment : Option String
  permissions : Option String
  condition : Condition
  selfHosted : Bool
  deriving DecidableEq, Repr

structure Step where
  name : String
  repo : String
  job : String
  index : Nat
  label : String
  uses : Option String
  env : Assoc String
  inputs : Assoc String
  condition : Condition
  traits : StepClass
  deriving DecidableEq, Repr

structure Action where
  repo : String
  ref : String
  /-- The directory of the action, empty for that of the repository. -/
  path : String
  /-- The definition of the action has been read, or need not be. -/
  initialized : Bool
  deriving DecidableEq, Repr

inductive Node where
  | repo (name : String)
  | workflow (w : Workflow)
  | job (j : Job)
  | step (s : Step)
  | action (a : Action)
  deriving DecidableEq, Repr

def Workflow.name (w : Workflow) : String := documentName w.repo w.ref w.path

def Workflow.called (repo ref path : String) : Workflow := ⟨repo, ref, path, none, false, [], []⟩

def Workflow.ofDocument (d : Document) : Workflow :=
  ⟨d.repo, d.ref, d.path, some d.displayName, true, d.triggers, d.env⟩

def permissionsText (permissions : Yaml) : String :=
  Text.replace "\n" ", " (Text.trim permissions.print)

def Job.ofDocument (w : Workflow) (j : Document.Job) : Job where
  name := jobName w.name j.name
  repo := w.repo
  job := j.name
  uses := j.uses
  env := j.env
  inputs := j.inputs
  outputs := j.outputs
  environment := j.environment
  permissions := j.permissions.map permissionsText
  condition := .ofText? j.condition
  selfHosted := Classification.jobSelfHosted j

/-- A step below a job or a composite action of a given name. -/
def Step.ofDocument (t : Classification.Tables) (parent repo job : String) (s : Document.Step) :
    Step where
  name := stepName parent s.index
  repo := repo
  job := job
  index := s.index
  label := s.label
  uses := s.uses
  env := s.env
  inputs := s.inputs
  condition := .ofText? s.condition
  traits := Classification.classifyStep t s

def Action.name (a : Action) : String := documentName a.repo a.ref a.path

namespace Node

def kind : Node → Kind
  | repo _ => .repo
  | workflow _ => .workflow
  | job _ => .job
  | step _ => .step
  | action _ => .action

def name : Node → String
  | repo name => name
  | workflow w => w.name
  | job j => j.name
  | step s => s.name
  | action a => a.name

def key (n : Node) : Key := ⟨n.kind, n.name⟩

def owner : Node → String
  | repo name => name
  | workflow w => w.repo
  | job j => j.repo
  | step s => s.repo
  | action a => a.repo

/-- Only workflows and actions can be referred to before they have been read. -/
def isInitialized : Node → Bool
  | workflow w => w.initialized
  | action a => a.initialized
  | _ => true

def asInitialized : Node → Node
  | workflow w => workflow { w with initialized := true }
  | action a => action { a with initialized := true }
  | n => n

def condition : Node → Condition
  | job j => j.condition
  | step s => s.condition
  | _ => .always

def isRestricted (n : Node) : Bool := n.condition.isRestricted

def traits? : Node → Option StepClass
  | step s => some s.traits
  | _ => none

def uninitializedTag : String := "uninitialized"

def traitTags (c : StepClass) : List String :=
  [(c.isCheckout, "checkout"), (c.isSink, "sink"), (c.injectable, "injectable"),
    (c.isGate, "permission_check"), (c.hardGate, "permission_blocker")].filterMap fun (held, tag) =>
      if held then some tag else none

def ownTags : Node → List String
  | workflow w => w.triggers
  | job j => if j.selfHosted then ["self-hosted"] else []
  | step s => traitTags s.traits
  | _ => []

/-- The tags of a node in ascending order. -/
def tags (n : Node) : List String :=
  Text.ascending
    (n.kind.tag :: (if n.isInitialized then [] else [uninitializedTag]) ++ n.ownTags)

def flagText (b : Bool) : String := if b then "true" else "false"

def optional (name : String) : Option String → Assoc String
  | some value => [(name, value)]
  | none => []

def ownAttributes : Node → Assoc String
  | repo _ => []
  | workflow w =>
    [("ref", w.ref), ("path", w.path), ("initialized", flagText w.initialized),
      ("triggers", Text.join "," w.triggers)] ++ optional "display_name" w.displayName
  | job j =>
    [("job", j.job), ("self_hosted", flagText j.selfHosted)] ++
      optional "environment" j.environment ++ optional "permissions" j.permissions ++
      optional "uses" j.uses
  | step s =>
    let c := s.traits
    [("job", s.job), ("label", s.label)] ++ optional "uses" s.uses ++
      [("is_checkout", flagText c.isCheckout), ("is_sink", flagText c.isSink),
        ("injectable", flagText c.injectable), ("is_hard_gate", flagText c.hardGate),
        ("is_soft_gate", flagText c.softGate)] ++
      (match c.checkoutRef with
        | some ref => [("checkout_ref", ref), ("mutable_ref", flagText c.mutableRef)]
        | none => []) ++
      if c.contexts.isEmpty then [] else [("contexts", Text.join "," c.contexts)]
  | action a => [("ref", a.ref), ("path", a.path), ("initialized", flagText a.initialized)]

/-- What a report may say about a node, as names with texts. -/
def attributes (n : Node) : Assoc String :=
  [("kind", n.kind.name), ("name", n.name), ("repo", n.owner)] ++
    optional "if" n.condition.display? ++ n.ownAttributes

end Node

end WorkflowAudit.Graph
