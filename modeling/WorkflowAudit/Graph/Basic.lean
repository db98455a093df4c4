import WorkflowAudit.Graph.Node

/-!
Graphs of workflows, jobs, steps and actions. Nodes are numbered in the order in which they came
in, and no two of them have one key; no edge stands twice. A graph only grows, but a node that has
not been read makes way for one of its key that has.
-/

namespace WorkflowAudit

namespace Graph

inductive Relation where
  /-- From a repository to its workflows, a workflow to its first jobs, a job or action to its
  steps. -/
  | contains
  /-- From a job to one that waits for it. -/
  | needs
  /-- From a job to the workflow it calls, from a step to its action. -/
  | uses
  /-- From a step to the one after it. -/
  | next
  deriving DecidableEq, Repr

structure Edge where
  source : Nat
  target : Nat
  relation : Relation
  deriving DecidableEq, Repr

end Graph

structure Graph where
  nodes : List Graph.Node
  edges : List Graph.Edge
  deriving DecidableEq, Repr

namespace Graph

def empty : Graph := ⟨[], []⟩

def number? (g : Graph) (key : Key) : Option Nat := g.nodes.findIdx? fun n => n.key = key

/-- Of two nodes with one key the first one stays, unless only the second one is initialized. -/
def settle (old new : Node) : Node :=
  if !old.isInitialized && new.isInitialized then new else old

def insert (g : Graph) (node : Node) : Graph :=
  match g.number? node.key with
  | some i => { g with nodes := g.nodes.modify i (settle · node) }
  | none => { g with nodes := g.nodes ++ [node] }

def connect (g : Graph) (source target : Nat) (relation : Relation) : Graph :=
  if g.edges.contains ⟨source, target, relation⟩ then g
  else { g with edges := g.edges ++ [⟨source, target, relation⟩] }

def markInitialized (g : Graph) (i : Nat) : Graph :=
  { g with nodes := g.nodes.modify i Node.asInitialized }

inductive Fact where
  | node (n : Node)
  | edge (source target : Key) (relation : Relation)
  deriving DecidableEq, Repr

def add (g : Graph) : Fact → Graph
  | .node n => g.insert n
  | .edge source target relation =>
    match g.number? source, g.number? target with
    | some i, some j => g.connect i j relation
    | _, _ => g

def addAll (g : Graph) (facts : List Fact) : Graph := facts.foldl add g

def hasTag (g : Graph) (i : Nat) (tag : String) : Bool := g.nodes[i]?.any (·.tags.contains tag)

/-- The nodes that carry at least one of the tags, in ascending order. -/
def tagged (g : Graph) (tags : List String) : List Nat :=
  (List.range g.nodes.length).filter fun i => tags.any (g.hasTag i)

end Graph

end WorkflowAudit
