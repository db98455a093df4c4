import WorkflowAudit.Audit.Walk
import WorkflowAudit.Finding.Collection

/-!
Injections: contexts of the outsider's that stand in a script which a workflow runs.
-/

namespace WorkflowAudit.Audit

open Source (Knowledge Lookup)

def injectionTriggers : List String :=
  ["pull_request_target", Graph.labeledTrigger, "issue_comment", "issues", "workflow_run", "fork",
   "discussion", "discussion_comment", "pull_request_review", "pull_request_review_comment"]

def endStep? (g : Graph) (path : List Nat) : Option Graph.Step :=
  match Walk.nodeAt g path.getLast? with
  | some (.step s) => some s
  | _ => none

/-- The paths from the nodes with one of the triggers to steps with a tag. -/
def stepPaths (g : Graph) (triggers : List String) (tag : String) : List (List Nat) :=
  ((g.tagged triggers).flatMap fun i => g.paths i tag).filter fun path => (endStep? g path).isSome

/-- An injection is certain when a context stands in the script itself. -/
def injectionConfidence (contexts : List Implicated) : Confidence :=
  if contexts.any (·.origin = .direct) then .high else .medium

def injectionAlong (k : Knowledge) (g : Graph) (path : List Nat) : Option Finding :=
  match endStep? g path, Walk.along k g path with
  | some s, some walk =>
    let contexts := walk.scope.implicated s.traits.contexts
    if walk.approvalGate || contexts.isEmpty then none
    else walk.finding? g path (injectionConfidence contexts) (.injection contexts)
  | _, _ => none

def injectionPaths (g : Graph) : List (List Nat) := stepPaths g injectionTriggers "injectable"

def injections (k : Knowledge) (g : Graph) : Findings :=
  .ofList ((injectionPaths g).filterMap (injectionAlong k g))

def injectionLookups (k : Knowledge) (g : Graph) : List Lookup :=
  (injectionPaths g).flatMap (Walk.lookups k g)

end WorkflowAudit.Audit
