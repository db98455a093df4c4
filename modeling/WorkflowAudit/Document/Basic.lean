import WorkflowAudit.Assoc
import WorkflowAudit.Yaml.Value

/-!
Workflows and composite actions. A document keeps only what an audit looks at; one that is no
mapping has no content and is passed over by all that reads it. A composite action has one job.
-/

namespace WorkflowAudit

namespace Document

structure Step where
  index : Nat
  name : Option String
  id : Option String
  uses : Option String
  run : Option String
  inputs : Assoc String
  env : Assoc String
  condition : Option String

structure Job where
  name : String
  uses : Option String
  needs : List String
  env : Assoc String
  inputs : Assoc String
  outputs : Assoc String
  condition : Option String
  environment : Option String
  permissions : Option Yaml
  runsOn : Option Yaml
  matrix : Option Yaml
  steps : List Step

structure Content where
  isComposite : Bool
  name : Option String
  triggers : List String
  env : Assoc String
  jobs : List Job

/-- What a step is called in a report: its name, id or clause, or its place. -/
def Step.label (s : Step) : String :=
  ((s.name <|> s.id) <|> s.uses).getD ("step " ++ Text.ofNat s.index)

end Document

structure Document where
  repo : String
  ref : String
  path : String
  content : Option Document.Content

namespace Document

def isValid (d : Document) : Bool := d.content.isSome

def isComposite (d : Document) : Bool := d.content.any (·.isComposite)

def displayName (d : Document) : String := (d.content.bind (·.name)).getD d.path

def triggers (d : Document) : List String := (d.content.map (·.triggers)).getD []

def env (d : Document) : Assoc String := (d.content.map (·.env)).getD []

def jobs (d : Document) : List Job := (d.content.map (·.jobs)).getD []

def compositeJob : String := "composite"

end Document

end WorkflowAudit
