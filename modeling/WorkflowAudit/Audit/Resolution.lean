import WorkflowAudit.Graph.Facts
import WorkflowAudit.Graph.Search
import WorkflowAudit.Source.Cache

/-!
Resolution of references: the workflows and actions that entries of a graph lead to are looked up
and added, in rounds, as each round may bring new references. What can't be found counts as read
all the same, so that no reference is tried twice.
-/

namespace WorkflowAudit.Audit

open Source (Knowledge Lookup)

def maxDepth : Nat := 5

/-- The nodes that entries lead to and that have not been read. -/
def pending (g : Graph) (entries : List Nat) : List Nat :=
  (g.tagged [Graph.Node.uninitializedTag]).filter (g.reachable entries).contains

def referenceLookup? : Graph.Node → Option Lookup
  | .workflow w => some (.workflow (.of w.repo w.ref w.path))
  | .action a => some (.action (.of a.repo a.ref a.path))
  | _ => none

def addReference (k : Knowledge) (t : Classification.Tables) (i : Nat) (g : Graph) : Graph :=
  match g.nodes[i]? with
  | some (.workflow w) =>
    match k.workflow (.of w.repo w.ref w.path) with
    | some d => g.addWorkflow t d
    | none => g
  | some (.action a) =>
    match k.action (.of a.repo a.ref a.path) with
    | some d => if d.isValid then g.addAction t d i else g
    | none => g
  | _ => g

def resolveNode (k : Knowledge) (t : Classification.Tables) (g : Graph) (i : Nat) : Graph :=
  (addReference k t i g).markInitialized i

def resolveRound (k : Knowledge) (t : Classification.Tables) (entries : List Nat) (g : Graph) :
    Graph :=
  (pending g entries).foldl (resolveNode k t) g

def resolveRounds (k : Knowledge) (t : Classification.Tables) (entries : List Nat) :
    Nat → Graph → Graph
  | 0, g => g
  | n + 1, g => resolveRounds k t entries n (resolveRound k t entries g)

def resolve (k : Knowledge) (t : Classification.Tables) (entries : List Nat) (g : Graph) : Graph :=
  resolveRounds k t entries maxDepth g

/-- What is looked up while nodes are resolved one after the other. -/
def nodeLookups (k : Knowledge) (t : Classification.Tables) : List Nat → Graph → List Lookup
  | [], _ => []
  | i :: rest, g =>
    (g.nodes[i]?.bind referenceLookup?).toList ++ nodeLookups k t rest (resolveNode k t g i)

def roundLookups (k : Knowledge) (t : Classification.Tables) (entries : List Nat) :
    Nat → Graph → List Lookup
  | 0, _ => []
  | n + 1, g =>
    nodeLookups k t (pending g entries) g ++ roundLookups k t entries n (resolveRound k t entries g)

def resolveLookups (k : Knowledge) (t : Classification.Tables) (entries : List Nat) (g : Graph) :
    List Lookup :=
  roundLookups k t entries maxDepth g

end WorkflowAudit.Audit
