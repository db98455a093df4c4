import WorkflowAudit.Proofs.Graph.Indexes

/-! Graphs as they come about: from nothing, by any operations in any order. Their indexes are
right at all times, and from one time to a later one they only grow. -/

namespace WorkflowAudit

open WorkflowAudit.Graph (Key Node Relation)
open Source (Knowledge)

inductive Operation where
  | insert (n : Node)
  | markInitialized (i : Nat)
  | connect (source target : Nat) (relation : Relation)
  | addWorkflow (t : Classification.Tables) (d : Document)
  | addAction (t : Classification.Tables) (d : Document) (i : Nat)
  | resolve (k : Knowledge) (t : Classification.Tables) (entries : List Nat)

namespace IndexedGraph

def perform (x : IndexedGraph) : Operation → IndexedGraph
  | .insert n => x.insert n
  | .markInitialized i => x.markInitialized i
  | .connect source target relation => x.connect source target relation
  | .addWorkflow t d => x.addWorkflow t d
  | .addAction t d i => x.addAction t d i
  | .resolve k t entries => x.resolve k t entries

def ofOperations (os : List Operation) : IndexedGraph := os.foldl perform empty

end IndexedGraph

namespace Graph

/-- The operation on a graph without indexes. -/
def perform (g : Graph) : Operation → Graph
  | .insert n => g.insert n
  | .markInitialized i => g.markInitialized i
  | .connect source target relation => g.connect source target relation
  | .addWorkflow t d => g.addWorkflow t d
  | .addAction t d i => g.addAction t d i
  | .resolve k t entries => Audit.resolve k t entries g

lemma grows_perform (g : Graph) (o : Operation) : g.Grows (g.perform o) := by
  cases o with
  | insert n => exact grows_insert g n
  | markInitialized i => exact grows_markInitialized g i
  | connect i j r => exact grows_connect g i j r
  | addWorkflow t d => exact grows_addWorkflow t d g
  | addAction t d i => exact grows_addAction t d i g
  | resolve k t entries => exact Audit.grows_resolveRounds k t entries _ g

lemma grows_foldl_perform (g : Graph) (os : List Operation) : g.Grows (os.foldl perform g) := by
  induction os generalizing g with
  | nil => exact .refl g
  | cons o os ih => exact (grows_perform g o).trans (ih _)

end Graph

namespace IndexedGraph

lemma Represents.perform {x : IndexedGraph} {g : Graph} (h : x.Represents g) (o : Operation) :
    (x.perform o).Represents (g.perform o) := by
  cases o with
  | insert n => exact h.insert n
  | markInitialized i => exact h.markInitialized i
  | connect i j r => exact h.connect i j r
  | addWorkflow t d => exact h.addWorkflow t d
  | addAction t d i => exact h.addAction t d i
  | resolve k t entries => exact h.resolveRounds k t entries _

lemma represents_ofOperations (os : List Operation) :
    (ofOperations os).Represents (os.foldl Graph.perform .empty) :=
  .foldl (fun _ _ o h => h.perform o) represents_empty os

/-- The indexes are right after any operations: each key leads to its one node, each tag to the
nodes that carry it now, and no edge is kept twice. -/
theorem indexes_agree (os : List Operation) :
    let x := ofOperations os
    (x.nodes.map Node.key).Nodup ∧
      x.numbers.Perm (x.nodes.map Node.key).zipIdx ∧
      (∀ (key : Key) (i : Nat),
        x.number? key = some i ↔ ∃ n, x.nodes[i]? = some n ∧ n.key = key) ∧
      (∀ (i : Nat) (tag : String),
        x.hasTag i tag = true ↔ ∃ n, x.nodes[i]? = some n ∧ tag ∈ n.tags) ∧
      (∀ tags : List String, (x.tagged tags).Pairwise (· < ·) ∧
        ∀ i : Nat, i ∈ x.tagged tags ↔
          ∃ n, x.nodes[i]? = some n ∧ ∃ tag ∈ tags, tag ∈ n.tags) ∧
      x.edges.Nodup := by
  intro x
  have h : x.IsIndexed := (represents_ofOperations os).indexed
  refine ⟨h.keyed, ?_, fun key i => h.number?_eq_some_iff, fun i tag => h.hasTag_eq_true_iff,
    fun tags => ⟨pairwise_tagged x tags, fun i => h.mem_tagged⟩, h.edges⟩
  rw [h.numbers]
  exact List.reverse_perm _

/-- Later operations keep every node in its place, under its key, and every edge. What has been read
stays as it is; anything else at most makes way for what has been read. -/
theorem operations_grow (os os' : List Operation) :
    let x := ofOperations os
    let x' := ofOperations (os ++ os')
    (∀ (i : Nat) (n : Node), x.nodes[i]? = some n → ∃ n' : Node, x'.nodes[i]? = some n' ∧
        n'.key = n.key ∧
        (n.isInitialized = true ∨ n.kind ∈ [.repo, .job, .step] → n' = n) ∧
        (n' = n ∨ n.isInitialized = false ∧ n'.isInitialized = true)) ∧
      (∀ (key : Key) (i : Nat), x.number? key = some i → x'.number? key = some i) ∧
      x.edges ⊆ x'.edges := by
  intro x x'
  have h := represents_ofOperations os
  have h' := represents_ofOperations (os ++ os')
  have hg : x.toGraph.Grows x'.toGraph := by
    rw [h.graph, h'.graph, List.foldl_append]
    exact Graph.grows_foldl_perform _ os'
  refine ⟨fun i n hn => ?_, fun key i hi => ?_, hg.edges⟩
  · obtain ⟨n', hn', hf⟩ := hg.nodes i n hn
    refine ⟨n', hn', hf.key, fun hread => hf.eq ?_, hf.read⟩
    rcases hread with hread | hkind
    · exact hread
    · cases n with
      | repo _ | job _ | step _ => rfl
      | workflow _ | action _ => simp [Node.kind] at hkind
  · rw [h.indexed.number?_eq] at hi
    rw [h'.indexed.number?_eq]
    exact hg.number? h'.indexed.keyed hi

end IndexedGraph

end WorkflowAudit
