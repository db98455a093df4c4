import WorkflowAudit.Graph.Basic

/-!
What an audit finds: scripts that an outsider can inject code into, and privileged workflows that
check out the code of a pull request.
-/

namespace WorkflowAudit

inductive Confidence where
  | medium
  | high
  deriving DecidableEq, Repr

def Confidence.name : Confidence → String
  | .medium => "Medium"
  | .high => "High"

inductive Origin where
  /-- It stands in the script. -/
  | direct
  | env
  /-- Through an input of a called workflow or of an action. -/
  | input
  /-- Through an output of another job. -/
  | output
  deriving DecidableEq, Repr

def Origin.name : Origin → String
  | .direct => "direct"
  | .env => "env"
  | .input => "input"
  | .output => "output"

structure Implicated where
  token : String
  origin : Origin
  /-- What the script calls the context, unless it stands there itself. -/
  via : Option String
  deriving DecidableEq, Repr

inductive Details where
  | injection (contexts : List Implicated)
  /-- `sink` is the first step that runs the code that was checked out. A gate can be raced when
  what was checked out may change after it. -/
  | pwnRequest (checkoutRef : String) (isMutable : Bool) (sink : Option String) (canRaceGate : Bool)
  deriving DecidableEq, Repr

def Details.kind : Details → String
  | .injection _ => "injection"
  | .pwnRequest .. => "pwn_request"

structure Finding where
  repo : String
  workflow : String
  job : Option String
  step : String
  stepName : String
  triggers : List String
  confidence : Confidence
  selfHosted : Bool
  path : List Graph.Key
  details : Details
  deriving DecidableEq, Repr

namespace Finding

def kind (f : Finding) : String := f.details.kind

def concerns (f g : Finding) : Bool := f.kind = g.kind && f.stepName = g.stepName

def isSurer (f g : Finding) : Bool := f.confidence = .high && g.confidence = .medium

end Finding

end WorkflowAudit
