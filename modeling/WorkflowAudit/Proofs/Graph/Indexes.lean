import Mathlib.Data.List.Sort
import WorkflowAudit.Audit.Indexed
import WorkflowAudit.Proofs.Audit.AttackPaths
import WorkflowAudit.Proofs.Graph.Construction

/-! Whatever is done to a graph, its indexes say of each node under which key and which tags it
stands, and nothing else. They change nothing but the way in which nodes are found. -/

namespace WorkflowAudit.IndexedGraph

open WorkflowAudit.Graph (Key Node Relation Fact)
open Source (Knowledge)

lemma mem_insertAscending {i j : Nat} {is : List Nat} :
    j ∈ insertAscending i is ↔ j = i ∨ j ∈ is := by
  induction is with
  | nil => simp [insertAscending]
  | cons k rest ih =>
    rw [insertAscending]
    split
    · next h => simp [h]
    · split
      · simp
      · rw [List.mem_cons, ih, List.mem_cons]
        exact or_left_comm

lemma pairwise_insertAscending (i : Nat) {is : List Nat} (h : is.Pairwise (· < ·)) :
    (insertAscending i is).Pairwise (· < ·) := by
  induction is with
  | nil => simp [insertAscending]
  | cons j rest ih =>
    obtain ⟨hj, hrest⟩ := List.pairwise_cons.mp h
    rw [insertAscending]
    split
    · exact h
    · split
      · next hlt =>
        refine List.pairwise_cons.mpr ⟨fun k hk => ?_, h⟩
        rcases List.mem_cons.mp hk with rfl | hk
        · exact hlt
        · exact hlt.trans (hj k hk)
      · refine List.pairwise_cons.mpr ⟨fun k hk => ?_, ih hrest⟩
        rcases mem_insertAscending.mp hk with rfl | hk
        · omega
        · exact hj k hk

/-- The numbers under a tag. -/
def under (m : Assoc (List Nat)) (tag : String) : List Nat := (m.get? tag).getD []

lemma under_indexTag (i : Nat) (m : Assoc (List Nat)) (tag tag' : String) :
    under (indexTag i m tag) tag' =
      if tag' = tag then insertAscending i (under m tag) else under m tag' := by
  rw [under, indexTag, Assoc.get?_insert]
  split <;> rfl

lemma under_unindexTag (i : Nat) (m : Assoc (List Nat)) (tag tag' : String) :
    under (unindexTag i m tag) tag' =
      if tag' = tag then (under m tag).filter (· ≠ i) else under m tag' := by
  rw [unindexTag]
  split
  · next is his =>
    rw [under, Assoc.get?_insert]
    split
    · simp [under, his]
    · rfl
  · next hnone =>
    split
    · next heq => simp [under, heq, hnone]
    · rfl

lemma mem_under_foldl_indexTag {i j : Nat} {m : Assoc (List Nat)} {tags : List String}
    {tag : String} :
    j ∈ under (tags.foldl (indexTag i) m) tag ↔ j ∈ under m tag ∨ j = i ∧ tag ∈ tags := by
  induction tags generalizing m with
  | nil => simp
  | cons t rest ih =>
    rw [List.foldl_cons, ih, under_indexTag, List.mem_cons]
    split
    · next heq =>
      subst heq
      rw [mem_insertAscending]
      tauto
    · tauto

lemma mem_under_foldl_unindexTag {i j : Nat} {m : Assoc (List Nat)} {tags : List String}
    {tag : String} :
    j ∈ under (tags.foldl (unindexTag i) m) tag ↔ j ∈ under m tag ∧ (tag ∈ tags → j ≠ i) := by
  induction tags generalizing m with
  | nil => simp
  | cons t rest ih =>
    rw [List.foldl_cons, ih, under_unindexTag, List.mem_cons]
    split
    · next heq =>
      subst heq
      rw [List.mem_filter, decide_eq_true_iff]
      tauto
    · tauto

/-- Under each tag the numbers ascend. -/
def IsAscending (m : Assoc (List Nat)) : Prop := ∀ tag : String, (under m tag).Pairwise (· < ·)

lemma IsAscending.indexTag {m : Assoc (List Nat)} (h : IsAscending m) (i : Nat) (tag : String) :
    IsAscending (indexTag i m tag) := by
  intro tag'
  rw [under_indexTag]
  split
  · exact pairwise_insertAscending i (h tag)
  · exact h tag'

lemma IsAscending.unindexTag {m : Assoc (List Nat)} (h : IsAscending m) (i : Nat) (tag : String) :
    IsAscending (unindexTag i m tag) := by
  intro tag'
  rw [under_unindexTag]
  split
  · exact (h tag).filter _
  · exact h tag'

lemma IsAscending.foldl_indexTag {m : Assoc (List Nat)} (h : IsAscending m) (i : Nat)
    (tags : List String) : IsAscending (tags.foldl (IndexedGraph.indexTag i) m) :=
  List.foldlRecOn tags _ h fun _ hm tag _ => hm.indexTag i tag

lemma IsAscending.foldl_unindexTag {m : Assoc (List Nat)} (h : IsAscending m) (i : Nat)
    (tags : List String) : IsAscending (tags.foldl (IndexedGraph.unindexTag i) m) :=
  List.foldlRecOn tags _ h fun _ hm tag _ => hm.unindexTag i tag

/-- The indexes agree with the nodes, and no edge stands twice. -/
structure IsIndexed (x : IndexedGraph) : Prop where
  keyed : x.IsKeyed
  numbers : x.numbers = (x.nodes.map Node.key).zipIdx.reverse
  carriers : ∀ (tag : String) (i : Nat),
    i ∈ x.carriersOf tag ↔ ∃ n : Node, x.nodes[i]? = some n ∧ tag ∈ n.tags
  ascending : ∀ tag : String, (x.carriersOf tag).Pairwise (· < ·)
  edges : x.edges.Nodup

lemma carriersOf_eq (x : IndexedGraph) (tag : String) :
    x.carriersOf tag = under x.carriers tag := rfl

variable {x : IndexedGraph} {n old new : Node} {key : Key} {i j : Nat} {tag : String}

lemma lookup_eq_some_iff_mem {l : List (Key × Nat)} (h : (l.map (·.1)).Nodup) :
    l.lookup key = some i ↔ (key, i) ∈ l := by
  constructor
  · intro hl
    obtain ⟨before, after, rfl, -⟩ := List.lookup_eq_some_iff.mp hl
    simp
  · intro hmem
    obtain ⟨before, after, rfl⟩ := List.append_of_mem hmem
    refine List.lookup_eq_some_iff.mpr ⟨before, after, rfl, fun p hp => ?_⟩
    rw [List.map_append, List.nodup_append] at h
    exact bne_iff_ne.mpr (h.2.2 p.1 (List.mem_map_of_mem hp) key (by simp)).symm

lemma pairwise_tagged (x : IndexedGraph) (tags : List String) :
    (x.tagged tags).Pairwise (· < ·) := by
  rw [tagged]
  induction tags.flatMap x.carriersOf with
  | nil => exact .nil
  | cons i rest ih => exact pairwise_insertAscending i ih

namespace IsIndexed

lemma mem_numbers (h : x.IsIndexed) :
    (key, i) ∈ x.numbers ↔ ∃ n : Node, x.nodes[i]? = some n ∧ n.key = key := by
  rw [h.numbers, List.mem_reverse, List.mem_zipIdx_iff_getElem?, List.getElem?_map]
  exact Option.map_eq_some_iff

lemma nodup_numbers (h : x.IsIndexed) : (x.numbers.map (·.1)).Nodup := by
  have hkeys : x.numbers.map (·.1) = (x.nodes.map Node.key).reverse := by
    rw [h.numbers, List.map_reverse, List.zipIdx_map_fst]
  rw [hkeys]
  exact List.nodup_reverse.mpr h.keyed

lemma number?_eq_some_iff (h : x.IsIndexed) :
    x.number? key = some i ↔ ∃ n : Node, x.nodes[i]? = some n ∧ n.key = key := by
  rw [number?, lookup_eq_some_iff_mem h.nodup_numbers, h.mem_numbers]

lemma number?_eq (h : x.IsIndexed) (key : Key) : x.number? key = x.toGraph.number? key := by
  refine Option.ext fun i => ?_
  rw [h.number?_eq_some_iff]
  constructor
  · rintro ⟨n, hn, rfl⟩
    exact h.keyed.number? hn
  · exact Graph.exists_of_number?

lemma hasTag_eq_true_iff (h : x.IsIndexed) :
    x.hasTag i tag = true ↔ ∃ n : Node, x.nodes[i]? = some n ∧ tag ∈ n.tags := by
  rw [hasTag, List.contains_iff_mem, h.carriers]

lemma hasTag_eq (h : x.IsIndexed) (i : Nat) (tag : String) :
    x.hasTag i tag = x.toGraph.hasTag i tag := by
  rw [Bool.eq_iff_iff, h.hasTag_eq_true_iff, Graph.hasTag, Option.any_eq_true]
  simp

lemma mem_tagged (h : x.IsIndexed) {tags : List String} :
    i ∈ x.tagged tags ↔ ∃ n : Node, x.nodes[i]? = some n ∧ ∃ tag ∈ tags, tag ∈ n.tags := by
  have hfold : ∀ is : List Nat, i ∈ is.foldr insertAscending [] ↔ i ∈ is := by
    intro is
    induction is with
    | nil => rfl
    | cons j rest ih => rw [List.foldr_cons, mem_insertAscending, ih, List.mem_cons]
  rw [tagged, hfold, List.mem_flatMap]
  constructor
  · rintro ⟨tag, htag, hi⟩
    obtain ⟨n, hn, hmem⟩ := (h.carriers tag i).mp hi
    exact ⟨n, hn, tag, htag, hmem⟩
  · rintro ⟨n, hn, tag, htag, hmem⟩
    exact ⟨tag, htag, (h.carriers tag i).mpr ⟨n, hn, hmem⟩⟩

lemma tagged_eq (h : x.IsIndexed) (tags : List String) : x.tagged tags = x.toGraph.tagged tags := by
  refine (pairwise_tagged x tags).eq_of_mem_iff ?_ fun i => ?_
  · exact List.Pairwise.filter _ List.pairwise_lt_range
  · rw [h.mem_tagged, Graph.mem_tagged_iff]
    simp only [← h.hasTag_eq, h.hasTag_eq_true_iff]
    tauto

lemma append (h : x.IsIndexed) (hn : x.number? n.key = none) : (x.append n).IsIndexed := by
  have hfresh : n.key ∉ x.nodes.map Node.key := by
    rw [h.number?_eq] at hn
    simpa using Graph.number?_eq_none_iff.mp hn
  refine ⟨?_, ?_, fun tag i => ?_, fun tag => ?_, h.edges⟩
  · change ((x.nodes ++ [n]).map Node.key).Nodup
    rw [List.map_append, List.map_singleton]
    simpa using h.keyed.concat hfresh
  · change (n.key, x.nodes.length) :: x.numbers = ((x.nodes ++ [n]).map Node.key).zipIdx.reverse
    rw [h.numbers, List.map_append, List.zipIdx_append, List.reverse_append, List.length_map]
    simp
  · change i ∈ under (n.tags.foldl (indexTag x.nodes.length) x.carriers) tag ↔
      ∃ m, (x.nodes ++ [n])[i]? = some m ∧ tag ∈ m.tags
    rw [mem_under_foldl_indexTag, ← carriersOf_eq, h.carriers]
    rcases lt_trichotomy i x.nodes.length with hlt | rfl | hgt
    · simp [List.getElem?_append_left hlt, hlt.ne]
    · simp
    · have hlen : (x.nodes ++ [n]).length ≤ i := by
        rw [List.length_append, List.length_singleton]
        omega
      simp [List.getElem?_eq_none hgt.le, List.getElem?_eq_none hlen, hgt.ne']
  · exact IsAscending.foldl_indexTag h.ascending _ _ tag

lemma replace (h : x.IsIndexed) (hi : x.nodes[i]? = some old) (hk : new.key = old.key) :
    (x.replace i new).IsIndexed := by
  have hkeys : (x.nodes.set i new).map Node.key = x.nodes.map Node.key := by
    obtain ⟨hlt, rfl⟩ := List.getElem?_eq_some_iff.mp hi
    rw [List.map_set, hk, ← List.getElem_map Node.key (h := by simpa using hlt),
      List.set_getElem_self]
  rw [IndexedGraph.replace, hi]
  refine ⟨?_, ?_, fun tag j => ?_, fun tag => ?_, h.edges⟩
  · rw [Graph.IsKeyed, hkeys]
    exact h.keyed
  · rw [hkeys]
    exact h.numbers
  · change j ∈ under _ tag ↔ _
    rw [mem_under_foldl_indexTag, mem_under_foldl_unindexTag, ← carriersOf_eq, h.carriers]
    by_cases hj : j = i
    · subst hj
      have hset : (x.nodes.set j new)[j]? = some new := by
        rw [List.getElem?_set_self (List.getElem?_eq_some_iff.mp hi).1]
      simp only [hi, hset, Option.some.injEq, exists_eq_left']
      tauto
    · simp [hj, List.getElem?_set_ne (Ne.symm hj)]
  · exact (IsAscending.foldl_unindexTag h.ascending i _).foldl_indexTag i _ tag

end IsIndexed

/-- The graph is as without indexes, and the indexes agree with it. -/
structure Represents (x : IndexedGraph) (g : Graph) : Prop where
  graph : x.toGraph = g
  indexed : x.IsIndexed

lemma represents_empty : empty.Represents .empty :=
  ⟨rfl, List.nodup_nil, rfl, by simp [carriersOf, empty, Graph.empty, Assoc.get?],
    fun _ => .nil, List.nodup_nil⟩

lemma nodup_edges_connect {g : Graph} (h : g.edges.Nodup) (i j : Nat) (r : Relation) :
    (g.connect i j r).edges.Nodup := by
  rw [Graph.connect]
  split
  · exact h
  · next hnew => simpa using h.concat fun he => hnew (List.contains_iff_mem.mpr he)

lemma asInitialized_asInitialized (n : Node) : n.asInitialized.asInitialized = n.asInitialized := by
  cases n <;> rfl

lemma markInitialized_markInitialized (g : Graph) (i : Nat) :
    (g.markInitialized i).markInitialized i = g.markInitialized i := by
  have hcomp : Node.asInitialized ∘ Node.asInitialized = Node.asInitialized :=
    funext asInitialized_asInitialized
  simp only [Graph.markInitialized, List.modify_modify_eq, hcomp]

/-- An action that has been read is marked twice. -/
lemma markInitialized_addReference (k : Knowledge) (t : Classification.Tables) (g : Graph)
    (i : Nat) : (Audit.addReference k t i g).markInitialized i =
      (g.addAll ((g.nodes[i]?.map (referenceFacts k t)).getD [])).markInitialized i := by
  rw [Audit.addReference]
  rcases hi : g.nodes[i]? with _ | n
  · rfl
  · rw [Option.map_some, Option.getD_some]
    cases n with
    | workflow w =>
      simp only [referenceFacts]
      cases k.workflow (.of w.repo w.ref w.path) <;> rfl
    | action a =>
      simp only [referenceFacts]
      cases k.action (.of a.repo a.ref a.path) with
      | none => rfl
      | some d =>
        dsimp only
        rw [Option.filter_some]
        cases d.isValid with
        | false => rfl
        | true =>
          simp only [if_true, Graph.addAction, hi, markInitialized_markInitialized]
          rfl
    | repo _ | job _ | step _ => rfl

namespace Represents

variable {g : Graph}

lemma foldl {α : Type} {f : IndexedGraph → α → IndexedGraph} {f' : Graph → α → Graph}
    (hf : ∀ x g a, Represents x g → Represents (f x a) (f' g a)) (h : x.Represents g)
    (as : List α) : (as.foldl f x).Represents (as.foldl f' g) := by
  induction as generalizing x g with
  | nil => exact h
  | cons a as ih => exact ih (hf x g a h)

lemma replace (h : x.Represents g) (hi : g.nodes[i]? = some old) (hk : new.key = old.key) :
    (x.replace i new).Represents { g with nodes := g.nodes.set i new } := by
  obtain ⟨rfl, h⟩ := h
  refine ⟨?_, h.replace hi hk⟩
  rw [IndexedGraph.replace, hi]

lemma insert (h : x.Represents g) (n : Node) : (x.insert n).Represents (g.insert n) := by
  obtain ⟨rfl, hx⟩ := h
  rw [IndexedGraph.insert, Graph.insert, ← hx.number?_eq]
  cases hi : x.number? n.key with
  | none => exact ⟨rfl, hx.append hi⟩
  | some i =>
    obtain ⟨old, hold, hkey⟩ := hx.number?_eq_some_iff.mp hi
    have hset : x.nodes.modify i (Graph.settle · n) = x.nodes.set i (Graph.settle old n) := by
      simp [List.modify_eq_set_getElem?, hold]
    dsimp only
    rw [hset, hold, Option.any_some, Graph.settle]
    split
    · exact replace ⟨rfl, hx⟩ hold hkey.symm
    · obtain ⟨hlt, rfl⟩ := List.getElem?_eq_some_iff.mp hold
      rw [List.set_getElem_self]
      exact ⟨rfl, hx⟩

lemma connect (h : x.Represents g) (i j : Nat) (r : Relation) :
    (x.connect i j r).Represents (g.connect i j r) := by
  obtain ⟨rfl, h⟩ := h
  have hnodes : (x.connect i j r).nodes = x.nodes := Graph.nodes_connect x.toGraph i j r
  refine ⟨rfl, ?_, ?_, ?_, h.ascending, nodup_edges_connect h.edges i j r⟩
  · rw [Graph.IsKeyed, hnodes]
    exact h.keyed
  · rw [hnodes]
    exact h.numbers
  · rw [hnodes]
    exact h.carriers

lemma markInitialized (h : x.Represents g) (i : Nat) :
    (x.markInitialized i).Represents (g.markInitialized i) := by
  have hmodify : g.markInitialized i = { g with
      nodes := (g.nodes[i]?.map fun n => g.nodes.set i n.asInitialized).getD g.nodes } := by
    rw [Graph.markInitialized, List.modify_eq_set_getElem?]
    rfl
  obtain ⟨rfl, hx⟩ := h
  rw [hmodify, IndexedGraph.markInitialized]
  cases hi : x.nodes[i]? with
  | none => exact ⟨rfl, hx⟩
  | some n =>
    have hself : x.nodes.set i n = x.nodes := by
      obtain ⟨hlt, rfl⟩ := List.getElem?_eq_some_iff.mp hi
      exact List.set_getElem_self hlt
    have hkey := n.follows_asInitialized.key
    cases n with
    | workflow w => exact replace ⟨rfl, hx⟩ hi hkey
    | action a => exact replace ⟨rfl, hx⟩ hi hkey
    | repo _ | job _ | step _ => exact ⟨congrArg (Graph.mk · x.edges) hself.symm, hx⟩

lemma add (h : x.Represents g) (fact : Fact) : (x.add fact).Represents (g.add fact) := by
  cases fact with
  | node n => exact h.insert n
  | edge a b r =>
    have hnumber : ∀ key, x.number? key = g.number? key := fun key =>
      h.graph ▸ h.indexed.number?_eq key
    rw [IndexedGraph.add, Graph.add, hnumber, hnumber]
    cases g.number? a with
    | none => exact h
    | some i =>
      cases g.number? b with
      | none => exact h
      | some j => exact h.connect i j r

lemma addAll (h : x.Represents g) (facts : List Fact) :
    (x.addAll facts).Represents (g.addAll facts) :=
  foldl (fun _ _ fact h => h.add fact) h facts

lemma addWorkflow (h : x.Represents g) (t : Classification.Tables) (d : Document) :
    (x.addWorkflow t d).Represents (g.addWorkflow t d) :=
  h.addAll _

lemma addAction (h : x.Represents g) (t : Classification.Tables) (d : Document) (i : Nat) :
    (x.addAction t d i).Represents (g.addAction t d i) := by
  rw [IndexedGraph.addAction, Graph.addAction, h.graph]
  rcases g.nodes[i]? with _ | n
  · exact h
  · cases n with
    | action a => exact (h.addAll _).markInitialized i
    | repo _ | workflow _ | job _ | step _ => exact h

variable (k : Knowledge) (t : Classification.Tables)

lemma resolveNode (h : x.Represents g) (i : Nat) :
    (resolveNode k t x i).Represents (Audit.resolveNode k t g i) := by
  rw [Audit.resolveNode, markInitialized_addReference, IndexedGraph.resolveNode, h.graph]
  exact (h.addAll _).markInitialized i

lemma tagged_eq (h : x.Represents g) (tags : List String) : x.tagged tags = g.tagged tags :=
  h.graph ▸ h.indexed.tagged_eq tags

lemma pending_eq (h : x.Represents g) (entries : List Nat) :
    x.pending entries = Audit.pending g entries := by
  rw [pending, Audit.pending, h.tagged_eq, h.graph]

lemma resolveRounds (h : x.Represents g) (entries : List Nat) (rounds : Nat) :
    (resolveRounds k t entries rounds x).Represents
      (Audit.resolveRounds k t entries rounds g) := by
  induction rounds generalizing x g with
  | zero => exact h
  | succ rounds ih =>
    refine ih ?_
    rw [Audit.resolveRound, h.pending_eq]
    exact foldl (fun _ _ i h => h.resolveNode k t i) h _

lemma resolved (h : x.Represents g) : (resolved k t x).Represents (Audit.resolved k t g) := by
  rw [IndexedGraph.resolved, Audit.resolved, entries, Audit.entries, h.tagged_eq]
  exact h.resolveRounds k t _ _

lemma audit_eq (h : x.Represents g) : x.audit k t = Audit.audit k t g := by
  rw [audit, (h.resolved k t).graph, Audit.audit]

end Represents

end WorkflowAudit.IndexedGraph
