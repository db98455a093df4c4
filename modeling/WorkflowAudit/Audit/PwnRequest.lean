import WorkflowAudit.Audit.Injection

/-!
Pwn requests: privileged workflows that check out the code of a pull request, and may run it.
-/

namespace WorkflowAudit.Audit

open Source (Knowledge Lookup)

/-- Privileged triggers that can be made to run on the code of a pull request. -/
def pwnRequestTriggers : List String :=
  ["pull_request_target", Graph.labeledTrigger, "issue_comment", "workflow_run"]

/-- The first sink among steps that follow a checkout. Restricted steps are passed over, and a hard
gate ends the search. -/
def sinkAmong (g : Graph) (checkout : Nat) : List Nat → Option String
  | [] => none
  | i :: rest =>
    match g.nodes[i]? with
    | some (.step s) =>
      if s.condition.isRestricted then sinkAmong g checkout rest
      else if i ≠ checkout && s.traits.hardGate then none
      else if s.traits.isSink then some s.label
      else sinkAmong g checkout rest
    | _ => none

def sinkAfter (g : Graph) (checkout : Nat) : Option String :=
  sinkAmong g checkout (g.stepsFrom checkout)

def isLabeled (g : Graph) (path : List Nat) : Bool :=
  path.head?.any fun entry => g.hasTag entry Graph.labeledTrigger

def isGated (g : Graph) (path : List Nat) (walk : Walk) : Bool :=
  walk.approvalGate || walk.softGated || isLabeled g path

/-- The checkout at the end of a path. Behind a gate it counts only if what is checked out may have
changed since the gate. -/
def pwnRequestAlong (k : Knowledge) (g : Graph) (path : List Nat) : Option Finding :=
  match path.getLast?, endStep? g path, Walk.along k g path with
  | some checkout, some s, some walk =>
    let gated := isGated g path walk
    if gated && !s.traits.mutableRef then none
    else
      let sink := sinkAfter g checkout
      walk.finding? g path (if sink.isSome then .high else .medium)
        (.pwnRequest (s.traits.checkoutRef.getD "") s.traits.mutableRef sink gated)
  | _, _, _ => none

def pwnRequestPaths (g : Graph) : List (List Nat) := stepPaths g pwnRequestTriggers "checkout"

def pwnRequests (k : Knowledge) (g : Graph) : Findings :=
  .ofList ((pwnRequestPaths g).filterMap (pwnRequestAlong k g))

def pwnRequestLookups (k : Knowledge) (g : Graph) : List Lookup :=
  (pwnRequestPaths g).flatMap (Walk.lookups k g)

end WorkflowAudit.Audit
