import Mathlib.Data.Finset.Card
import Mathlib.Data.Finset.Range
import WorkflowAudit.Proofs.Graph.DocumentPaths

/-! Which nodes edges lead to, whatever conditions and gates stand on the way. The closure of a
graph finds all of them, and the search for paths never leaves them. -/

namespace WorkflowAudit.Graph

/-- Edges lead from some nodes to a node, past nodes only. -/
inductive LeadsTo (g : Graph) (starts : List Nat) : Nat → Prop
  | start {i : Nat} : i ∈ starts → i < g.nodes.length → LeadsTo g starts i
  | edge {i j : Nat} {r : Relation} : LeadsTo g starts i → ⟨i, j, r⟩ ∈ g.edges →
      j < g.nodes.length → LeadsTo g starts j

variable {g : Graph} {starts seen seen' : List Nat} {i j : Nat}

lemma LeadsTo.lt (h : g.LeadsTo starts i) : i < g.nodes.length := by
  cases h with
  | start _ hi => exact hi
  | edge _ _ hi => exact hi

lemma LeadsTo.mono (h : g.LeadsTo seen i) (hs : seen ⊆ seen') : g.LeadsTo seen' i := by
  induction h with
  | start hi hlt => exact .start (hs hi) hlt
  | edge _ he hlt ih => exact .edge ih he hlt

lemma mem_targets_iff : j ∈ g.targets seen ↔ ∃ i ∈ seen, ∃ r, ⟨i, j, r⟩ ∈ g.edges := by
  simp only [targets, List.mem_map, List.mem_filter, List.contains_iff_mem]
  constructor
  · rintro ⟨⟨i, j, r⟩, ⟨he, hi⟩, rfl⟩
    exact ⟨i, hi, r, he⟩
  · rintro ⟨i, hi, r, he⟩
    exact ⟨⟨i, j, r⟩, ⟨he, hi⟩, rfl⟩

lemma LeadsTo.mem_of_closed (h : g.LeadsTo seen i)
    (hclosed : ∀ j ∈ g.targets seen, j < g.nodes.length → j ∈ seen) : i ∈ seen := by
  induction h with
  | start hi _ => exact hi
  | edge _ he hlt ih => exact hclosed _ (mem_targets_iff.mpr ⟨_, ih, _, he⟩) hlt

lemma subset_closure (fuel : Nat) (seen : List Nat) : seen ⊆ closure g fuel seen := by
  induction fuel generalizing seen with
  | zero => exact List.Subset.refl _
  | succ fuel ih =>
    rw [closure]
    split
    · exact List.Subset.refl _
    · exact List.Subset.trans (List.subset_append_left _ _) (ih _)

/-- The nodes that have not been seen. -/
def unseen (g : Graph) (seen : List Nat) : Finset Nat :=
  (Finset.range g.nodes.length).filter (· ∉ seen)

lemma mem_unseen_iff : i ∈ g.unseen seen ↔ i < g.nodes.length ∧ i ∉ seen := by
  rw [unseen, Finset.mem_filter, Finset.mem_range]

lemma mem_closure_of_leadsTo {fuel : Nat} (hfuel : (g.unseen seen).card ≤ fuel)
    (h : g.LeadsTo seen i) : i ∈ closure g fuel seen := by
  -- Each round but the last one sees another node.
  induction fuel generalizing seen with
  | zero =>
    by_contra hi
    have hmem : i ∈ g.unseen seen := mem_unseen_iff.mpr ⟨h.lt, hi⟩
    rw [Finset.card_eq_zero.mp (Nat.le_zero.mp hfuel)] at hmem
    exact Finset.notMem_empty i hmem
  | succ fuel ih =>
    by_cases hclosed : ∀ j ∈ g.targets seen, j < g.nodes.length → j ∈ seen
    · exact subset_closure _ _ (h.mem_of_closed hclosed)
    · push Not at hclosed
      obtain ⟨j, hj, hlt, hnew⟩ := hclosed
      have hfresh : j ∈ ((g.targets seen).filter fun j => !seen.contains j).eraseDups := by
        simpa using ⟨hj, hnew⟩
      rw [closure]
      split
      · next hnil => exact absurd (hnil ▸ hfresh) List.not_mem_nil
      · refine ih ?_ (h.mono (List.subset_append_left _ _))
        refine Nat.le_of_lt_succ (lt_of_lt_of_le (Finset.card_lt_card ?_) hfuel)
        refine Finset.ssubset_iff_of_subset (fun k hk => ?_) |>.mpr
          ⟨j, mem_unseen_iff.mpr ⟨hlt, hnew⟩, fun hk => ?_⟩
        · obtain ⟨hk, hunseen⟩ := mem_unseen_iff.mp hk
          exact mem_unseen_iff.mpr ⟨hk, fun h => hunseen (List.mem_append_left _ h)⟩
        · exact (mem_unseen_iff.mp hk).2 (List.mem_append_right _ hfresh)

lemma leadsTo_of_mem_closure {fuel : Nat} (hedges : ∀ e ∈ g.edges, e.target < g.nodes.length)
    (hseen : ∀ j ∈ seen, g.LeadsTo starts j) (h : i ∈ closure g fuel seen) :
    g.LeadsTo starts i := by
  induction fuel generalizing seen with
  | zero => exact hseen i h
  | succ fuel ih =>
    rw [closure] at h
    split at h
    · exact hseen i h
    · refine ih (fun j hj => ?_) h
      rcases List.mem_append.mp hj with hj | hj
      · exact hseen j hj
      · have hj : j ∈ g.targets seen := (List.mem_filter.mp (List.mem_eraseDups.mp hj)).1
        obtain ⟨i, hi, r, he⟩ := mem_targets_iff.mp hj
        exact .edge (hseen i hi) he (hedges _ he)

lemma mem_reachable_of_leadsTo (h : g.LeadsTo starts i) : i ∈ g.reachable starts := by
  have hcard : (g.unseen starts).card ≤ g.nodes.length := by
    calc (g.unseen starts).card
        _ ≤ (Finset.range g.nodes.length).card := Finset.card_filter_le _ _
        _ = g.nodes.length := Finset.card_range _
  simpa [reachable] using ⟨h.lt, mem_closure_of_leadsTo hcard h⟩

/-- In a graph whose edges lead to nodes, the nodes that count as reachable are those that edges
lead to. -/
theorem mem_reachable_iff (hedges : ∀ e ∈ g.edges, e.target < g.nodes.length)
    (hstarts : ∀ i ∈ starts, i < g.nodes.length) :
    i ∈ g.reachable starts ↔ g.LeadsTo starts i := by
  refine ⟨fun h => ?_, mem_reachable_of_leadsTo⟩
  obtain ⟨-, hmem⟩ : i < g.nodes.length ∧ i ∈ closure g g.nodes.length starts := by
    simpa [reachable] using h
  exact leadsTo_of_mem_closure hedges (fun j hj => .start hj (hstarts j hj)) hmem

lemma leadsTo_of_mem_chain {p : List Nat} {s : Nat}
    (hchain : p.IsChain fun x y => y ∈ g.successors x) (hhead : p.head? = some s)
    (hs : g.LeadsTo starts s) (hi : i ∈ p) : g.LeadsTo starts i := by
  induction p generalizing s with
  | nil => exact absurd hi List.not_mem_nil
  | cons x p ih =>
    obtain rfl : x = s := Option.some.inj hhead
    rcases List.mem_cons.mp hi with rfl | hi
    · exact hs
    · cases p with
      | nil => exact absurd hi List.not_mem_nil
      | cons y p =>
        obtain ⟨hxy, hchain⟩ := List.isChain_cons_cons.mp hchain
        obtain ⟨hlt, r, he, -⟩ := mem_successors_iff.mp hxy
        exact ih hchain rfl (.edge hs he hlt) hi

lemma leadsTo_of_mem_paths {p : List Nat} {s : Nat} {tag : String} (hs : s ∈ starts)
    (hp : p ∈ g.paths s tag) (hi : i ∈ p) : g.LeadsTo starts i := by
  have h := mem_paths_iff.mp hp
  have hmem : s ∈ p := List.mem_of_head? h.begins
  obtain ⟨n, hn, -⟩ := h.isOpen s hmem
  exact leadsTo_of_mem_chain h.consecutive h.begins
    (.start hs (List.getElem?_eq_some_iff.mp hn).1) hi

end WorkflowAudit.Graph
