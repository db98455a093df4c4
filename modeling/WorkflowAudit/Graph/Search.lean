import WorkflowAudit.Graph.Basic

/-!
The search for paths to tagged nodes, and other ways through a graph.

A path never enters a restricted node and passes no node twice. A hard gate ends it. A soft gate
ends it too, unless the path starts at a workflow that is limited to the labeling of a pull
request; behind the gate a node is then reported only once the path has checked out code that may
have changed since.
-/

namespace WorkflowAudit.Graph

/-- The trigger of workflows that only run when a pull request is labeled. -/
def labeledTrigger : String := "pull_request_target:labeled"

/-- Of the steps of a job only the first one is entered from the job. -/
def isEntry (g : Graph) (e : Edge) : Bool :=
  match e.relation, g.nodes[e.target]? with
  | .contains, some (.step s) => s.index = 0
  | _, _ => true

/-- The nodes one step further, in ascending order. -/
def successors (g : Graph) (i : Nat) : List Nat :=
  (List.range g.nodes.length).filter fun j =>
    g.edges.any fun e => e.source = i && e.target = j && g.isEntry e

structure Progress where
  /-- The path starts at a workflow that is limited to labeling. -/
  labeled : Bool
  mutableCheckout : Bool
  softGated : Bool
  deriving DecidableEq, Repr

namespace Progress

def isMutableCheckout (node : Node) : Bool := node.traits?.any (·.isMutableCheckout)

def counts (p : Progress) (node : Node) : Bool :=
  !p.softGated || p.mutableCheckout || isMutableCheckout node

/-- The progress behind a node, unless the path ends there. -/
def past? (p : Progress) (node : Node) : Option Progress :=
  let isHard := node.traits?.any (·.hardGate)
  let isSoft := node.traits?.any (·.softGate)
  if isHard || (isSoft && !p.labeled) then none
  else some
    { labeled := p.labeled
      mutableCheckout := p.mutableCheckout || isMutableCheckout node
      softGated := p.softGated || (isSoft && !p.mutableCheckout) }

end Progress

/-- The paths that go on from `path` with node `i` and then at most `fuel` nodes in all. -/
def pathsFrom (g : Graph) (tag : String) : Nat → Progress → List Nat → Nat → List (List Nat)
  | 0, _, _, _ => []
  | fuel + 1, progress, path, i =>
    match g.nodes[i]? with
    | none => []
    | some node =>
      if path.contains i || node.isRestricted then []
      else
        let path := path ++ [i]
        let found := if node.tags.contains tag && progress.counts node then [path] else []
        match progress.past? node with
        | none => found
        | some progress => found ++ (g.successors i).flatMap (pathsFrom g tag fuel progress path)

/-- All paths from a node to nodes that carry a tag. A path passes no node twice, so its length is
at most the number of nodes. -/
def paths (g : Graph) (start : Nat) (tag : String) : List (List Nat) :=
  pathsFrom g tag g.nodes.length ⟨g.hasTag start labeledTrigger, false, false⟩ [] start

def stepsOf (g : Graph) (i : Nat) : List Nat :=
  (List.range g.nodes.length).filter fun j =>
    g.edges.contains ⟨i, j, .contains⟩ && g.nodes[j]?.any (·.kind = .step)

/-- The step after a step: of several edges to one, the last that was added. -/
def next? (g : Graph) (i : Nat) : Option Nat :=
  (g.edges.reverse.find? fun e => e.source = i && e.relation = .next).map (·.target)

/-- The steps behind `passed`, up to the first one that comes again. -/
def followSteps (g : Graph) : Nat → List Nat → Nat → List Nat
  | 0, passed, _ => passed
  | fuel + 1, passed, i =>
    match g.next? i with
    | none => passed
    | some j => if passed.contains j then passed else followSteps g fuel (passed ++ [j]) j

/-- A step and those after it, each once. -/
def stepsFrom (g : Graph) (i : Nat) : List Nat := followSteps g g.nodes.length [i] i

def targets (g : Graph) (sources : List Nat) : List Nat :=
  (g.edges.filter fun e => sources.contains e.source).map (·.target)

def closure (g : Graph) : Nat → List Nat → List Nat
  | 0, seen => seen
  | fuel + 1, seen =>
    match ((g.targets seen).filter fun j => !seen.contains j).eraseDups with
    | [] => seen
    | new => closure g fuel (seen ++ new)

/-- All nodes that edges lead to from given nodes, those included, in ascending order. -/
def reachable (g : Graph) (starts : List Nat) : List Nat :=
  let seen := closure g g.nodes.length starts
  (List.range g.nodes.length).filter seen.contains

end WorkflowAudit.Graph
