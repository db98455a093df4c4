import Mathlib.Data.List.Nodup
import WorkflowAudit.Audit.Basic
import WorkflowAudit.Graph.Facts

/-! A graph only grows. Its nodes keep their numbers and keys, those that have been read keep their
contents too, and no edge goes away. -/

namespace WorkflowAudit

namespace Graph

/-- No two nodes have one key. -/
def IsKeyed (g : Graph) : Prop := (g.nodes.map Node.key).Nodup

/-- What may stand in the place of a node later on. -/
structure Node.Follows (new old : Node) : Prop where
  key : new.key = old.key
  read : new = old ∨ old.isInitialized = false ∧ new.isInitialized = true

structure Grows (g g' : Graph) : Prop where
  nodes : ∀ (i : Nat) (n : Node), g.nodes[i]? = some n →
    ∃ n' : Node, g'.nodes[i]? = some n' ∧ n'.Follows n
  edges : g.edges ⊆ g'.edges
  keyed : g.IsKeyed → g'.IsKeyed

namespace Node

lemma Follows.refl (n : Node) : n.Follows n := ⟨rfl, Or.inl rfl⟩

lemma Follows.trans {a b c : Node} (hab : b.Follows a) (hbc : c.Follows b) : c.Follows a := by
  refine ⟨hbc.key.trans hab.key, ?_⟩
  rcases hab.read with rfl | ⟨ha, hb⟩
  · exact hbc.read
  · rcases hbc.read with rfl | ⟨hb', -⟩
    · exact Or.inr ⟨ha, hb⟩
    · exact absurd (hb.symm.trans hb') (by simp)

lemma Follows.eq {a b : Node} (h : b.Follows a) (ha : a.isInitialized = true) : b = a := by
  rcases h.read with h | ⟨ha', -⟩
  · exact h
  · exact absurd (ha.symm.trans ha') (by simp)

lemma follows_asInitialized (n : Node) : n.asInitialized.Follows n := by
  cases n with
  | workflow w =>
    obtain ⟨repo, ref, path, displayName, initialized, triggers, env⟩ := w
    cases initialized with
    | false => exact ⟨rfl, Or.inr ⟨rfl, rfl⟩⟩
    | true => exact ⟨rfl, Or.inl rfl⟩
  | action a =>
    obtain ⟨repo, ref, path, initialized⟩ := a
    cases initialized with
    | false => exact ⟨rfl, Or.inr ⟨rfl, rfl⟩⟩
    | true => exact ⟨rfl, Or.inl rfl⟩
  | repo _ => exact .refl _
  | job _ => exact .refl _
  | step _ => exact .refl _

lemma follows_settle {old new : Node} (h : old.key = new.key) : (settle old new).Follows old := by
  rw [settle]
  split
  · next hc =>
    simp only [Bool.and_eq_true, Bool.not_eq_true'] at hc
    exact ⟨h.symm, Or.inr hc⟩
  · exact .refl _

end Node

variable {g g' g'' : Graph} {key : Key} {n m : Node} {i j : Nat}

lemma number?_eq_none_iff : g.number? key = none ↔ ∀ n ∈ g.nodes, n.key ≠ key := by
  simp [number?]

lemma exists_of_number? (h : g.number? key = some i) :
    ∃ n, g.nodes[i]? = some n ∧ n.key = key := by
  obtain ⟨hi, hk, -⟩ := List.findIdx?_eq_some_iff_getElem.mp h
  exact ⟨_, List.getElem?_eq_getElem hi, by simpa using hk⟩

lemma eq_key_of_number? (hn : g.number? key = some i) (hi : g.nodes[i]? = some n) :
    key = n.key := by
  obtain ⟨m, hm, hk⟩ := exists_of_number? hn
  obtain rfl := Option.some.inj (hm.symm.trans hi)
  exact hk.symm

lemma IsKeyed.eq (h : g.IsKeyed) (hi : g.nodes[i]? = some n) (hj : g.nodes[j]? = some m)
    (hk : n.key = m.key) : i = j := by
  have hlt : i < (g.nodes.map Node.key).length := by
    simpa using (List.getElem?_eq_some_iff.mp hi).1
  exact (List.getElem?_inj hlt h).mp (by simp [hi, hj, hk])

lemma IsKeyed.number? (h : g.IsKeyed) (hi : g.nodes[i]? = some n) :
    g.number? n.key = some i := by
  cases hn : g.number? n.key with
  | none => exact absurd rfl (number?_eq_none_iff.mp hn n (List.mem_of_getElem? hi))
  | some j =>
    obtain ⟨m, hj, hk⟩ := exists_of_number? hn
    rw [h.eq hi hj hk.symm]

lemma IsKeyed.number?_eq_some_iff (h : g.IsKeyed) (hn : n ∈ g.nodes) :
    g.number? n.key = some i ↔ g.nodes[i]? = some n := by
  constructor
  · intro hi
    obtain ⟨j, hj⟩ := List.mem_iff_getElem?.mp hn
    rw [h.number? hj] at hi
    exact Option.some.inj hi ▸ hj
  · exact h.number?

lemma map_key_modify {l : List Node} {f : Node → Node}
    (h : ∀ n, l[i]? = some n → (f n).key = n.key) :
    (l.modify i f).map Node.key = l.map Node.key := by
  refine List.ext_getElem? fun j => ?_
  rw [List.getElem?_map, List.getElem?_map, List.getElem?_modify]
  cases hj : l[j]? with
  | none => rfl
  | some n =>
    by_cases hij : i = j
    · subst hij
      simp [h n hj]
    · simp [hij]

lemma grows_modify {f : Node → Node} (h : ∀ n, g.nodes[i]? = some n → (f n).Follows n) :
    g.Grows { g with nodes := g.nodes.modify i f } := by
  refine ⟨fun j n hj => ?_, List.Subset.refl _, fun hk => ?_⟩
  · rw [List.getElem?_modify, hj]
    by_cases hij : i = j
    · subst hij
      exact ⟨f n, by simp, h n hj⟩
    · exact ⟨n, by simp [hij], .refl n⟩
  · rw [IsKeyed, map_key_modify fun n hn => (h n hn).key]
    exact hk

lemma Grows.refl (g : Graph) : g.Grows g :=
  ⟨fun _ n hn => ⟨n, hn, .refl n⟩, List.Subset.refl _, id⟩

lemma Grows.trans (h : g.Grows g') (h' : g'.Grows g'') : g.Grows g'' := by
  refine ⟨fun i n hn => ?_, fun _ he => h'.edges (h.edges he), h'.keyed ∘ h.keyed⟩
  obtain ⟨n', hn', hf⟩ := h.nodes i n hn
  obtain ⟨n'', hn'', hf'⟩ := h'.nodes i n' hn'
  exact ⟨n'', hn'', hf.trans hf'⟩

lemma Grows.getElem? (h : g.Grows g') (hi : g.nodes[i]? = some n) (hn : n.isInitialized = true) :
    g'.nodes[i]? = some n := by
  obtain ⟨n', hn', hf⟩ := h.nodes i n hi
  rw [hn', hf.eq hn]

lemma Grows.number? (h : g.Grows g') (hk : g'.IsKeyed) (hi : g.number? key = some i) :
    g'.number? key = some i := by
  obtain ⟨n, hn, rfl⟩ := exists_of_number? hi
  obtain ⟨n', hn', hf⟩ := h.nodes i n hn
  rw [← hf.key]
  exact hk.number? hn'

lemma follows_settle_of_number? (h : g.number? n.key = some i) :
    ∀ m, g.nodes[i]? = some m → (settle m n).Follows m := by
  intro m hm
  obtain ⟨m', hm', hk⟩ := exists_of_number? h
  obtain rfl : m = m' := Option.some.inj (hm.symm.trans hm')
  exact Node.follows_settle hk

lemma grows_insert (g : Graph) (n : Node) : g.Grows (g.insert n) := by
  rw [insert]
  split
  · next i hi => exact grows_modify (follows_settle_of_number? hi)
  · next hnew =>
    refine ⟨fun i m hm => ⟨m, ?_, .refl m⟩, List.Subset.refl _, fun hk => ?_⟩
    · exact List.getElem?_append_left (List.getElem?_eq_some_iff.mp hm).1 ▸ hm
    · simp only [IsKeyed, List.map_append, List.map_singleton]
      refine List.nodup_append.mpr ⟨hk, List.nodup_singleton _, ?_⟩
      rintro _ hm _ hn rfl
      obtain ⟨m, hm, hkey⟩ := List.mem_map.mp hm
      exact number?_eq_none_iff.mp hnew m hm (hkey.trans (List.mem_singleton.mp hn))

lemma grows_connect (g : Graph) (a b : Nat) (r : Relation) : g.Grows (g.connect a b r) := by
  rw [connect]
  split
  · exact .refl g
  · exact ⟨fun _ n hn => ⟨n, hn, .refl n⟩, List.subset_append_left _ _, id⟩

lemma grows_markInitialized (g : Graph) (i : Nat) : g.Grows (g.markInitialized i) :=
  grows_modify fun n _ => n.follows_asInitialized

lemma grows_add (g : Graph) (fact : Fact) : g.Grows (g.add fact) := by
  cases fact with
  | node n => exact grows_insert g n
  | edge a b r =>
    rw [add]
    split
    · exact grows_connect g _ _ r
    · exact .refl g

lemma grows_addAll (g : Graph) (facts : List Fact) : g.Grows (g.addAll facts) := by
  induction facts generalizing g with
  | nil => exact .refl g
  | cons fact facts ih => exact (grows_add g fact).trans (ih _)

lemma grows_addWorkflow (t : Classification.Tables) (d : Document) (g : Graph) :
    g.Grows (g.addWorkflow t d) :=
  grows_addAll g _

lemma grows_addAction (t : Classification.Tables) (d : Document) (i : Nat) (g : Graph) :
    g.Grows (g.addAction t d i) := by
  rw [addAction]
  split
  · exact (grows_addAll g _).trans (grows_markInitialized _ i)
  · exact .refl g

lemma isKeyed_empty : empty.IsKeyed := List.nodup_nil

end Graph

namespace Audit

open Source (Knowledge)
open WorkflowAudit.Graph

variable (k : Knowledge) (t : Classification.Tables)

lemma grows_addReference (i : Nat) (g : Graph) : g.Grows (addReference k t i g) := by
  rw [addReference]
  split
  · split
    · exact grows_addWorkflow t _ g
    · exact .refl g
  · split
    · split
      · exact grows_addAction t _ i g
      · exact .refl g
    · exact .refl g
  · exact .refl g

lemma grows_resolveNode (g : Graph) (i : Nat) : g.Grows (resolveNode k t g i) :=
  (grows_addReference k t i g).trans (grows_markInitialized _ i)

lemma grows_foldl_resolveNode (is : List Nat) (g : Graph) :
    g.Grows (is.foldl (resolveNode k t) g) := by
  induction is generalizing g with
  | nil => exact .refl g
  | cons i is ih => exact (grows_resolveNode k t g i).trans (ih _)

lemma grows_resolveRounds (entries : List Nat) (n : Nat) (g : Graph) :
    g.Grows (resolveRounds k t entries n g) := by
  induction n generalizing g with
  | zero => exact .refl g
  | succ n ih => exact (grows_foldl_resolveNode k t _ g).trans (ih _)

/-- An audit looks at a graph that has grown from its own. -/
lemma grows_resolved (g : Graph) : g.Grows (resolved k t g) := grows_resolveRounds k t _ _ g

end Audit

end WorkflowAudit
