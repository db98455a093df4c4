import WorkflowAudit.Finding.Collection
import WorkflowAudit.Json.Printer

/-!
Findings as JSON: an object from repositories to lists of findings. What a finding lacks is left
out, save its job.
-/

namespace WorkflowAudit.Report

def optionalField (name : String) : Option String → List (String × Json)
  | some text => [(name, .text text)]
  | none => []

def textOrNull : Option String → Json
  | some text => .text text
  | none => .null

def implicatedRecord (i : Implicated) : Json :=
  .object ([("token", .text i.token), ("source", .text i.origin.name)] ++ optionalField "via" i.via)

def detailFields : Details → List (String × Json)
  | .injection contexts => [("contexts", .array (contexts.map implicatedRecord))]
  | .pwnRequest checkoutRef isMutable sink canRaceGate =>
    [("checkout_ref", .text checkoutRef), ("mutable", .bool isMutable)] ++
      optionalField "sink" sink ++ [("toctou", .bool canRaceGate)]

def keyRecord (k : Graph.Key) : Json :=
  .object [("kind", .text k.kind.name), ("name", .text k.name)]

def findingRecord (f : Finding) : Json :=
  .object
    ([("repo", .text f.repo), ("workflow", .text f.workflow), ("job", textOrNull f.job),
      ("step", .text f.step), ("triggers", .array (f.triggers.map .text)),
      ("confidence", .text f.confidence.name), ("self_hosted", .bool f.selfHosted),
      ("path", .array (f.path.map keyRecord)), ("kind", .text f.kind)] ++ detailFields f.details)

def findingsRecord (fs : Findings) : Json :=
  .object (fs.entries.map fun e => (e.1, .array (e.2.map findingRecord)))

def findingsJson (fs : Findings) : String := (findingsRecord fs).pretty ""

end WorkflowAudit.Report
