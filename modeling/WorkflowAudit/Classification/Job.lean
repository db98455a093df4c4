import WorkflowAudit.Context.Scan
import WorkflowAudit.Document.Basic

/-!
Whether some configuration of a job runs on a machine of its owner.
-/

namespace WorkflowAudit.Classification

def isHostedLabel (label : String) : Bool :=
  let name := Text.fold (Text.trim label)
  ["ubuntu-", "windows-", "macos-"].any (Text.startsWith · name)

def hasExpression (text : String) : Bool := Text.contains "$\x7b\x7b" text

def matrixKey (body : String) : Option String :=
  match Text.afterFront "matrix.".toList body.toList with
  | some key =>
    if !key.isEmpty && key.all Context.isPathChar then some (String.ofList key) else none
  | none => none

mutual

/-- A value of the matrix counts as self-hosted when it comes from an expression or is a mapping. -/
def matrixValueSelfHosted : Yaml → Bool
  | .text s => hasExpression s || !isHostedLabel s
  | .sequence vs => matrixValuesSelfHosted vs
  | .mapping _ => true
  | _ => false

def matrixValuesSelfHosted : List Yaml → Bool
  | [] => false
  | v :: rest => matrixValueSelfHosted v || matrixValuesSelfHosted rest

end

/-- The values that a key takes in the matrix, the included ones among them; none of them is known
when the matrix, or the list of included entries, is an expression. -/
def expressionSelfHosted (matrix : Option Yaml) (body : String) : Bool :=
  match matrixKey body, matrix with
  | some _, some (.text _) => true
  | some key, some (.mapping es) =>
    let own := (Yaml.lookup key es).toList
    match Yaml.lookup "include" es with
    | some (.sequence entries) =>
      (own ++ entries.filterMap (Yaml.get? key)).any matrixValueSelfHosted
    | some (.text _) => true
    | _ => own.any matrixValueSelfHosted
  | _, _ => false

mutual

/-- Whether a label could select a machine of the owner. A group always does. -/
def runsOnSelfHosted (matrix : Option Yaml) : Yaml → Bool
  | .text label =>
    if hasExpression label then (Context.bodies label).any (expressionSelfHosted matrix)
    else !isHostedLabel label
  | .sequence labels => anySelfHosted matrix labels
  | .mapping es => Yaml.hasKey "group" es || labelsSelfHosted matrix es
  | _ => false

def anySelfHosted (matrix : Option Yaml) : List Yaml → Bool
  | [] => false
  | v :: rest => runsOnSelfHosted matrix v || anySelfHosted matrix rest

def labelsSelfHosted (matrix : Option Yaml) : List (Yaml × Yaml) → Bool
  | [] => false
  | (k, v) :: rest =>
    if k.isText "labels" then runsOnSelfHosted matrix v else labelsSelfHosted matrix rest

end

def jobSelfHosted (job : Document.Job) : Bool :=
  job.runsOn.any (runsOnSelfHosted job.matrix)

end WorkflowAudit.Classification
