import WorkflowAudit.Graph.Basic

/-!
What documents state about a graph: a workflow with its repository, jobs and steps, and the
workflows and actions that these use. What is used may be a node that has not been read yet.
-/

namespace WorkflowAudit.Graph

def defaultRef : String := "HEAD"

/-- The owner of a repository: what precedes the first slash. -/
def ownerOf (repo : String) : String := ((Text.cutFirst '/' repo).map (·.1)).getD repo

def calledWorkflow (d : Document) (uses : String) : Option Workflow :=
  match Uses.parse? uses with
  | some (.localPath path) => some (.called d.repo d.ref path)
  | some (.repository u) => u.subpath.map fun path => .called u.slug (u.ref.getD defaultRef) path
  | _ => none

/-- The action that a step uses. Actions of the same owner are read, unless they are known to be
safe. -/
def usedAction (t : Classification.Tables) (repo ref uses : String) : Option Action :=
  match Uses.parse? uses with
  | some (.localPath path) => some ⟨repo, ref, path, false⟩
  | some (.repository u) =>
    let isOwn := Text.sameIgnoringCase u.owner (ownerOf repo)
    let isSafe := UsesPattern.acceptedByAny t.safeActions u
    some ⟨u.slug, u.ref.getD defaultRef, u.subpath.getD "", !isOwn || isSafe⟩
  | _ => none

def usedFacts (user : Key) : Option Node → List Fact
  | some n => [.node n, .edge user n.key .uses]
  | none => []

/-- What the steps of a job or of a composite action belong to. -/
structure Parent where
  key : Key
  name : String
  job : String
  repo : String
  ref : String
  deriving DecidableEq, Repr

def followFacts (step : Key) : Option Key → List Fact
  | some previous => [.edge previous step .next]
  | none => []

/-- Each step follows the one before it. -/
def stepFacts (t : Classification.Tables) (parent : Parent) (previous : Option Key) :
    List Document.Step → List Fact
  | [] => []
  | s :: rest =>
    let step := Node.step (.ofDocument t parent.name parent.repo parent.job s)
    let action := s.uses.bind (usedAction t parent.repo parent.ref)
    [.node step, .edge parent.key step.key .contains] ++ followFacts step.key previous ++
      usedFacts step.key (action.map .action) ++ stepFacts t parent (some step.key) rest

/-- A job hangs off the jobs that it waits for, or off the workflow if none of them is known. -/
def jobFacts (t : Classification.Tables) (d : Document) (j : Document.Job) : List Fact :=
  let workflow := Workflow.ofDocument d
  let name := jobName workflow.name j.name
  let key : Key := ⟨.job, name⟩
  let known := j.needs.filter fun need => d.jobs.any (·.name = need)
  known.map (fun need => .edge ⟨.job, jobName workflow.name need⟩ key .needs) ++
    (if known.isEmpty then [.edge (Node.workflow workflow).key key .contains] else []) ++
    usedFacts key ((j.uses.bind (calledWorkflow d)).map .workflow) ++
    stepFacts t ⟨key, name, j.name, d.repo, d.ref⟩ none j.steps

/-- All nodes of jobs come before the edges between them. -/
def workflowFacts (t : Classification.Tables) (d : Document) : List Fact :=
  if d.isValid then
    let workflow := Workflow.ofDocument d
    [.node (.repo d.repo), .node (.workflow workflow),
      .edge (Node.repo d.repo).key (Node.workflow workflow).key .contains] ++
      d.jobs.map (fun j => .node (.job (.ofDocument workflow j))) ++ d.jobs.flatMap (jobFacts t d)
  else []

/-- Only a composite action has steps. -/
def actionFacts (t : Classification.Tables) (a : Action) (d : Document) : List Fact :=
  if d.isComposite then
    let name := jobName a.name Document.compositeJob
    d.jobs.flatMap fun j =>
      stepFacts t ⟨(Node.action a).key, name, Document.compositeJob, a.repo, a.ref⟩ none j.steps
  else []

def addWorkflow (t : Classification.Tables) (d : Document) (g : Graph) : Graph :=
  g.addAll (workflowFacts t d)

def workflowNumber? (g : Graph) (d : Document) : Option Nat :=
  if d.isValid then g.number? (Node.workflow (.ofDocument d)).key else none

def addAction (t : Classification.Tables) (d : Document) (i : Nat) (g : Graph) : Graph :=
  match g.nodes[i]? with
  | some (.action a) => (g.addAll (actionFacts t a d)).markInitialized i
  | _ => g

end WorkflowAudit.Graph
