import WorkflowAudit.Classification.Script
import WorkflowAudit.Context.Scan
import WorkflowAudit.Document.Basic

/-!
What a step does: whether it checks out the code of a pull request, runs code of the tree that was
checked out, puts a context into a script, or checks who started the run.
-/

namespace WorkflowAudit

structure StepClass where
  isCheckout : Bool
  checkoutRef : Option String
  /-- What is checked out may change after the run has started. -/
  mutableRef : Bool
  isSink : Bool
  injectable : Bool
  isGate : Bool
  hardGate : Bool
  softGate : Bool
  contexts : List String
  deriving DecidableEq, Repr

def StepClass.isMutableCheckout (c : StepClass) : Bool := c.isCheckout && c.mutableRef

namespace Classification

def isAction (u : RepositoryUses) (action : String) : Bool :=
  match UsesPattern.parse? action with
  | some p => p.accepts u
  | none => false

/-- The script that a step runs: its own, or an input of an action that runs one. -/
def stepScript (uses : Option Uses) (run : Option String) (inputs : Assoc String) : Option String :=
  match run, uses with
  | some script, _ => some script
  | none, some (.repository u) =>
    (scriptActions.find? fun a => isAction u a.1).bind fun a => inputs.get? a.2
  | none, _ => none

/-- What an action checks out, unless that is always trusted code or goes to a path of its own. -/
def actionCheckout (inputs : Assoc String) : Option String :=
  match inputs.get? "ref" with
  | none => none
  | some ref =>
    if !Text.contains "$\x7b\x7b" ref || inputs.contains "path" then none
    else
      let contexts := (Context.bodies ref).flatMap Context.tokens
      let allSafe := !contexts.isEmpty &&
        contexts.all fun c => safeCheckoutRefs.any (Text.sameIgnoringCase c)
      let baseOnly := Text.contains "base" ref && !mentionsPullRequest ref
      if allSafe || baseOnly then none else some ref

/-- A body that can't be read and names no path counts as a context that is not static. -/
def isInjectableBody (body : String) : Bool :=
  let tokens := Context.tokens body
  (tokens.isEmpty && (Expression.parse? body).isNone) || tokens.any fun t => !isStatic t

def stepCheckout (uses : Option Uses) (run : Option String) (inputs : Assoc String) :
    Option String :=
  match run, uses with
  | some script, _ => scriptCheckout script
  | none, some (.repository u) =>
    if isAction u "actions/checkout" then actionCheckout inputs else none
  | none, _ => none

def isSinkStep (t : Tables) (uses : Option Uses) (inputs : Assoc String) (script : Option String)
    (injectable : Bool) : Bool :=
  match uses, script with
  | some (.localPath _), _ => true
  | some (.repository u), script =>
    if isAction u "ruby/setup-ruby" then inputs.get? "bundler-cache" = some "true"
    else if isAction u "actions/setup-node" then
      (inputs.get? "cache").any fun v => v ≠ "" && v ≠ "false"
    else script.any fun s => !Text.isBlankText s
  | _, some s => injectable || isSinkScript t s
  | _, none => false

/-- How a gate ends: a hard one fails the job, after a soft one the job goes on. -/
inductive Gate where
  | hard
  | soft
  deriving DecidableEq, Repr

def Gate.ofHard (hard : Bool) : Gate := if hard then .hard else .soft

/-- A script is a gate when it asks for permissions, or for the fork of a pull request and then
fails. -/
def scriptGate (t : Tables) (script : String) : Option Gate :=
  let fails := containsAny failureMarkers script
  let permissionCheck := containsAny t.permissionCheckPatterns script
  let forkCheck := containsAny forkCheckMarkers script && fails
  if permissionCheck || forkCheck then some (.ofHard (forkCheck || (permissionCheck && fails)))
  else none

def actionGate (t : Tables) (u : RepositoryUses) : Option Gate :=
  if UsesPattern.acceptedByAny t.permissionCheckActions u then
    some (.ofHard (UsesPattern.acceptedByAny t.failingPermissionCheckActions u))
  else none

/-- The script of a step, if it has one, decides whether the step is a gate. -/
def stepGate (t : Tables) (uses : Option Uses) (script : Option String) : Option Gate :=
  match script, uses with
  | some s, _ => scriptGate t s
  | none, some (.repository u) => actionGate t u
  | none, _ => none

def classifyStep (t : Tables) (step : Document.Step) : StepClass :=
  let uses := step.uses.bind Uses.parse?
  let script := stepScript uses step.run step.inputs
  let contexts := (script.map Context.bodies).getD []
  let injectable := contexts.any isInjectableBody
  let checkoutRef := stepCheckout uses step.run step.inputs
  let gate := stepGate t uses script
  { isCheckout := checkoutRef.isSome
    checkoutRef := checkoutRef
    mutableRef := checkoutRef.any isMutableRef
    isSink := isSinkStep t uses step.inputs script injectable
    injectable := injectable
    isGate := gate.isSome
    hardGate := gate = some .hard
    softGate := gate = some .soft
    contexts := contexts }

end Classification

end WorkflowAudit
