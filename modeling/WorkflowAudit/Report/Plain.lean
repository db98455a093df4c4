import WorkflowAudit.Finding.Collection
import WorkflowAudit.Report.Diagnostic

/-!
Findings as text for people: a diagnostic for each, below the name of its repository, and a summary.
-/

namespace WorkflowAudit.Report

/-- Text in one of the colors, after which the color is as before. -/
def colored (code text : String) : String := escape code ++ text ++ escape "39"

def green : String → String := colored "32"

def yellow : String → String := colored "33"

def red : String → String := colored "31"

def Level.ofConfidence : Confidence → Level
  | .medium => .warning
  | .high => .error

def quoted (text : String) : String := "`" ++ text ++ "`"

def findingTitle (f : Finding) : String :=
  match f.details with
  | .injection _ => "script injection in " ++ quoted f.step
  | .pwnRequest checkoutRef .. =>
    quoted f.step ++ " checks out " ++ quoted checkoutRef ++ " in a privileged context"

def implicatedNote (i : Implicated) : String :=
  match i.via with
  | some via => quoted i.token ++ " reaches the script via " ++ quoted via
  | none => quoted i.token ++ " is interpolated directly"

def detailNotes : Details → List String
  | .injection contexts => contexts.map implicatedNote
  | .pwnRequest _ isMutable sink canRaceGate =>
    [match sink with
      | some sink => quoted sink ++ " runs the checked out code"
      | none => "no known sink runs the checked out code"] ++
      (if isMutable then ["the checked out ref is mutable"] else []) ++
      if canRaceGate then ["the gate can be raced by pushing after approval"] else []

def placeNote (f : Finding) : String :=
  let job := match f.job with
    | some job => " (job " ++ quoted job ++ ")"
    | none => ""
  f.workflow ++ job ++ ", triggered by " ++ Text.join ", " f.triggers

def findingNotes (f : Finding) : List String :=
  [placeNote f] ++ detailNotes f.details ++
    (if f.selfHosted then ["the job runs on a self-hosted runner"] else []) ++
    ["path: " ++ Text.join " → " (f.path.map (·.name)), "confidence: " ++ f.confidence.name]

def findingDiagnostic (f : Finding) : Diagnostic :=
  ⟨.ofConfidence f.confidence, some f.kind, findingTitle f, findingNotes f⟩

def repositoryLines (repo : String) (fs : List Finding) : List String :=
  (escape "1" ++ repo ++ escape "0") :: fs.flatMap fun f => [(findingDiagnostic f).render, ""]

def summary (fs : Findings) : String :=
  if fs.isEmpty then green "No findings to report. Good job!"
  else
    let plural := if fs.size = 1 then "" else "s"
    green (Text.ofNat fs.size) ++ " finding" ++ plural ++ ": " ++
      yellow (Text.ofNat (fs.count .medium)) ++ " medium, " ++
      red (Text.ofNat (fs.count .high)) ++ " high"

def findingsText (fs : Findings) : String :=
  String.join
    (((fs.entries.flatMap fun e => repositoryLines e.1 e.2) ++ [summary fs]).map (· ++ "\n"))

end WorkflowAudit.Report
