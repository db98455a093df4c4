import WorkflowAudit.Audit.PwnRequest
import WorkflowAudit.Audit.Resolution

/-!
The audit of a graph: references are resolved, then both kinds of findings are collected.
-/

namespace WorkflowAudit.Audit

open Source (Knowledge Lookup)

def entries (g : Graph) : List Nat := g.tagged (injectionTriggers ++ pwnRequestTriggers)

/-- The graph with everything resolved that an attack may lead to. -/
def resolved (k : Knowledge) (t : Classification.Tables) (g : Graph) : Graph :=
  resolve k t (entries g) g

def findings (k : Knowledge) (g : Graph) : Findings := (injections k g).extend (pwnRequests k g)

def audit (k : Knowledge) (t : Classification.Tables) (g : Graph) : Findings :=
  findings k (resolved k t g)

def lookups (k : Knowledge) (t : Classification.Tables) (g : Graph) : List Lookup :=
  let graph := resolved k t g
  resolveLookups k t (entries g) g ++ injectionLookups k graph ++ pwnRequestLookups k graph

end WorkflowAudit.Audit
