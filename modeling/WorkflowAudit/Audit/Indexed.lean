import WorkflowAudit.Audit.Basic
import WorkflowAudit.Graph.Indexed

/-!
The audit of a graph with indexes. What has not been read and where attacks begin is looked up by
tags.
-/

namespace WorkflowAudit.IndexedGraph

open Source (Knowledge)

/-- What the definition of a node states, if it is known and can be read. -/
def referenceFacts (k : Knowledge) (t : Classification.Tables) : Graph.Node → List Graph.Fact
  | .workflow w => ((k.workflow (.of w.repo w.ref w.path)).map (Graph.workflowFacts t)).getD []
  | .action a =>
    (((k.action (.of a.repo a.ref a.path)).filter (·.isValid)).map (Graph.actionFacts t a)).getD []
  | _ => []

def resolveNode (k : Knowledge) (t : Classification.Tables) (x : IndexedGraph) (i : Nat) :
    IndexedGraph :=
  (x.addAll ((x.nodes[i]?.map (referenceFacts k t)).getD [])).markInitialized i

def pending (x : IndexedGraph) (entries : List Nat) : List Nat :=
  (x.tagged [Graph.Node.uninitializedTag]).filter (x.reachable entries).contains

def resolveRounds (k : Knowledge) (t : Classification.Tables) (entries : List Nat) :
    Nat → IndexedGraph → IndexedGraph
  | 0, x => x
  | n + 1, x => resolveRounds k t entries n ((x.pending entries).foldl (resolveNode k t) x)

def resolve (k : Knowledge) (t : Classification.Tables) (entries : List Nat) (x : IndexedGraph) :
    IndexedGraph :=
  resolveRounds k t entries Audit.maxDepth x

def entries (x : IndexedGraph) : List Nat :=
  x.tagged (Audit.injectionTriggers ++ Audit.pwnRequestTriggers)

/-- The graph with everything resolved that an attack may lead to. -/
def resolved (k : Knowledge) (t : Classification.Tables) (x : IndexedGraph) : IndexedGraph :=
  x.resolve k t x.entries

def audit (k : Knowledge) (t : Classification.Tables) (x : IndexedGraph) : Findings :=
  Audit.findings k (x.resolved k t).toGraph

end WorkflowAudit.IndexedGraph
