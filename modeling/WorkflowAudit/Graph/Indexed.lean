import WorkflowAudit.Assoc
import WorkflowAudit.Graph.Facts

/-!
Graphs with two indexes, in which nodes are looked up by their keys and by their tags. Both are kept
up to date whenever a node comes in or makes way for another one.
-/

namespace WorkflowAudit

structure IndexedGraph extends Graph where
  numbers : List (Graph.Key × Nat)
  /-- Under each tag the numbers of the nodes that carry it, in ascending order. -/
  carriers : Assoc (List Nat)
  deriving DecidableEq, Repr

namespace IndexedGraph

open WorkflowAudit.Graph (Key Node Relation Fact)

def empty : IndexedGraph := ⟨.empty, [], []⟩

/-- Puts a number in its place, unless it is there already. -/
def insertAscending (i : Nat) : List Nat → List Nat
  | [] => [i]
  | j :: rest =>
    if i = j then j :: rest else if i < j then i :: j :: rest else j :: insertAscending i rest

def indexTag (i : Nat) (m : Assoc (List Nat)) (tag : String) : Assoc (List Nat) :=
  m.insert tag (insertAscending i ((m.get? tag).getD []))

def unindexTag (i : Nat) (m : Assoc (List Nat)) (tag : String) : Assoc (List Nat) :=
  match m.get? tag with
  | some is => m.insert tag (is.filter (· ≠ i))
  | none => m

def number? (x : IndexedGraph) (key : Key) : Option Nat := x.numbers.lookup key

def carriersOf (x : IndexedGraph) (tag : String) : List Nat := (x.carriers.get? tag).getD []

def hasTag (x : IndexedGraph) (i : Nat) (tag : String) : Bool := (x.carriersOf tag).contains i

/-- The nodes that carry at least one of the tags, in ascending order. -/
def tagged (x : IndexedGraph) (tags : List String) : List Nat :=
  (tags.flatMap x.carriersOf).foldr insertAscending []

/-- Puts another node in the place of one. It goes by its own tags from then on. -/
def replace (x : IndexedGraph) (i : Nat) (new : Node) : IndexedGraph :=
  match x.nodes[i]? with
  | some old =>
    { x with
      nodes := x.nodes.set i new
      carriers := new.tags.foldl (indexTag i) (old.tags.foldl (unindexTag i) x.carriers) }
  | none => x

def append (x : IndexedGraph) (n : Node) : IndexedGraph :=
  { x with
    nodes := x.nodes ++ [n]
    numbers := (n.key, x.nodes.length) :: x.numbers
    carriers := n.tags.foldl (indexTag x.nodes.length) x.carriers }

/-- A node whose key is known comes in only if it has been read and the one that is there has
not. -/
def insert (x : IndexedGraph) (n : Node) : IndexedGraph :=
  match x.number? n.key with
  | some i =>
    if x.nodes[i]?.any (!·.isInitialized) && n.isInitialized then x.replace i n else x
  | none => x.append n

def connect (x : IndexedGraph) (source target : Nat) (relation : Relation) : IndexedGraph :=
  { x with toGraph := x.toGraph.connect source target relation }

def markInitialized (x : IndexedGraph) (i : Nat) : IndexedGraph :=
  match x.nodes[i]? with
  | some (.workflow w) => x.replace i (Node.workflow w).asInitialized
  | some (.action a) => x.replace i (Node.action a).asInitialized
  | _ => x

def add (x : IndexedGraph) : Fact → IndexedGraph
  | .node n => x.insert n
  | .edge source target relation =>
    match x.number? source, x.number? target with
    | some i, some j => x.connect i j relation
    | _, _ => x

def addAll (x : IndexedGraph) (facts : List Fact) : IndexedGraph := facts.foldl add x

def addWorkflow (t : Classification.Tables) (d : Document) (x : IndexedGraph) : IndexedGraph :=
  x.addAll (Graph.workflowFacts t d)

def workflowNumber? (x : IndexedGraph) (d : Document) : Option Nat :=
  if d.isValid then x.number? (Node.workflow (.ofDocument d)).key else none

def addAction (t : Classification.Tables) (d : Document) (i : Nat) (x : IndexedGraph) :
    IndexedGraph :=
  match x.nodes[i]? with
  | some (.action a) => (x.addAll (Graph.actionFacts t a d)).markInitialized i
  | _ => x

end IndexedGraph

end WorkflowAudit
