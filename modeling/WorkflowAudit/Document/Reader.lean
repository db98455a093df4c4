import WorkflowAudit.Document.Basic

/-!
Reading documents from YAML. Whatever has another shape than expected counts as absent.
-/

namespace WorkflowAudit.Document

abbrev Entries := List (Yaml × Yaml)

/-- Puts an entry over an earlier one of the same key. -/
def putEntry (key value : Yaml) : Entries → Entries
  | [] => [(key, value)]
  | (k, v) :: rest => if k.same key then (k, value) :: rest else (k, v) :: putEntry key value rest

def textKey : Yaml → Yaml
  | .bool b => .text (if b then "true" else "false")
  | k => k

mutual

/-- Turns the keys `true` and `false` of all mappings into text. -/
def withTextKeys : Yaml → Yaml
  | .mapping es => .mapping ((textEntries es).foldl (fun acc e => putEntry e.1 e.2 acc) [])
  | .sequence vs => .sequence (withTextKeysAll vs)
  | v => v

def withTextKeysAll : List Yaml → List Yaml
  | [] => []
  | v :: rest => withTextKeys v :: withTextKeysAll rest

def textEntries : List (Yaml × Yaml) → List (Yaml × Yaml)
  | [] => []
  | (k, v) :: rest => (textKey k, withTextKeys v) :: textEntries rest

end

def scalar : Yaml → Option String
  | .text s => some s
  | .bool b => some (if b then "true" else "false")
  | .number n => some n.display
  | _ => none

def textField (key : String) (es : Entries) : Option String := (Yaml.lookup key es).bind Yaml.text?

def scalars : Option Yaml → Assoc String
  | some (.mapping es) =>
    .ofList (es.filterMap fun e =>
      match scalar e.1, scalar e.2 with
      | some k, some v => some (k, v)
      | _, _ => none)
  | _ => []

def scalarsField (key : String) (es : Entries) : Assoc String := scalars (Yaml.lookup key es)

/-- Whether a trigger is limited to the labeling of a pull request. -/
def labeledOnly (config : Yaml) : Bool :=
  match config.get? "types" with
  | some (.text t) => t = "labeled"
  | some (.sequence [t]) => t.text? = some "labeled"
  | _ => false

def readTriggers : Option Yaml → List String
  | some (.text t) => [t]
  | some (.sequence ts) => ts.filterMap Yaml.text?
  | some (.mapping es) =>
    es.filterMap fun e => e.1.text?.map fun name =>
      if name = "pull_request_target" && labeledOnly e.2 then "pull_request_target:labeled"
      else name
  | _ => []

def readNeeds : Option Yaml → List String
  | some (.text n) => [n]
  | some (.sequence ns) => ns.filterMap Yaml.text?
  | _ => []

def readStep (index : Nat) (es : Entries) : Step where
  index := index
  name := textField "name" es
  id := textField "id" es
  uses := textField "uses" es
  run := textField "run" es
  inputs := scalarsField "with" es
  env := scalarsField "env" es
  condition := (Yaml.lookup "if" es).bind scalar

def readSteps : Option Yaml → List Step
  | some (.sequence items) => (items.filterMap Yaml.mapping?).mapIdx readStep
  | _ => []

def readEnvironment : Option Yaml → Option String
  | some (.mapping es) => (Yaml.lookup "name" es).bind scalar
  | some v => scalar v
  | none => none

def readJob (name : String) (es : Entries) : Job where
  name := name
  uses := textField "uses" es
  needs := readNeeds (Yaml.lookup "needs" es)
  env := scalarsField "env" es
  inputs := scalarsField "with" es
  outputs := scalarsField "outputs" es
  condition := (Yaml.lookup "if" es).bind scalar
  environment := readEnvironment (Yaml.lookup "environment" es)
  permissions := Yaml.lookup "permissions" es
  runsOn := Yaml.lookup "runs-on" es
  matrix := (Yaml.lookup "strategy" es).bind (·.get? "matrix")
  steps := readSteps (Yaml.lookup "steps" es)

def readJobs (es : Entries) : List Job :=
  match (Yaml.lookup "jobs" es).bind Yaml.mapping? with
  | some jobs =>
    jobs.filterMap fun e =>
      match e.1.text?, e.2.mapping? with
      | some name, some body => some (readJob name body)
      | _, _ => none
  | none => []

def readContent (es : Entries) : Content :=
  let runs := (Yaml.lookup "runs" es).bind Yaml.mapping?
  let isComposite := runs.bind (textField "using") == some "composite"
  { isComposite := isComposite
    name := textField "name" es
    triggers := readTriggers (Yaml.lookup "on" es)
    env := scalarsField "env" es
    jobs :=
      match isComposite, runs with
      | true, some body => [readJob compositeJob body]
      | _, _ => readJobs es }

/-- Reads a document; each tab counts as two blanks. -/
def parse (text repo ref path : String) : Document :=
  let content :=
    match Yaml.read? (Text.replace "\t" "  " text) with
    | some (.mapping es) =>
      match withTextKeys (.mapping es) with
      | .mapping es => some (readContent es)
      | _ => none
    | _ => none
  ⟨repo, ref, path, content⟩

end WorkflowAudit.Document
