import Mathlib.Data.List.Perm.Subperm
import WorkflowAudit.Proofs.Graph.StepOrder

/-! The steps behind a step. Following them comes to an end in any graph, also where they lead round
in a circle: no step comes twice, and none is left out. -/

namespace WorkflowAudit.Graph

/-- Edges lead to nodes. -/
def IsJoined (g : Graph) : Prop := ∀ e ∈ g.edges, e.target < g.nodes.length

/-- An edge that leads from a step to the one after it. -/
def IsNext (g : Graph) (e : Edge) : Prop :=
  e.relation = .next ∧ g.nodes[e.source]?.any (·.kind = .step) = true

/-- No step has two steps after it. -/
def HasOneNext (g : Graph) : Prop :=
  ∀ e ∈ g.edges, ∀ e' ∈ g.edges, g.IsNext e → g.IsNext e' → e.source = e'.source →
    e.target = e'.target

instance (g : Graph) : Decidable g.IsJoined :=
  inferInstanceAs (Decidable (∀ e ∈ g.edges, e.target < g.nodes.length))

instance (g : Graph) (e : Edge) : Decidable (g.IsNext e) :=
  inferInstanceAs (Decidable (_ ∧ _))

instance (g : Graph) : Decidable g.HasOneNext :=
  inferInstanceAs (Decidable (∀ e ∈ g.edges, ∀ e' ∈ g.edges, _ → _ → _ → _))

/-- Nodes that lead from one to the next one, each of them once. -/
structure IsRow (g : Graph) (c : Nat) (row : List Nat) : Prop where
  begins : row.head? = some c
  follows : row.IsChain fun i j => g.next? i = some j
  nodup : row.Nodup

/-- Nothing new follows a row. -/
def IsClosed (g : Graph) (row : List Nat) : Prop :=
  ∃ i ∈ row.getLast?, ∀ j ∈ g.next? i, j ∈ row

/-- A step that stands some number of steps behind another one. -/
inductive IsBehind (g : Graph) (c : Nat) : Nat → Nat → Prop
  | self {s} : g.nodes[c]? = some (.step s) → IsBehind g c 0 c
  | next {k i j s} : IsBehind g c k i → ⟨i, j, .next⟩ ∈ g.edges → g.nodes[j]? = some (.step s) →
      IsBehind g c (k + 1) j

variable {g : Graph} {c i j k : Nat} {row passed : List Nat} {s : Step}

/-! ### Following steps -/

lemma mem_edges_of_next? (h : g.next? i = some j) : ⟨i, j, .next⟩ ∈ g.edges := by
  obtain ⟨⟨source, target, relation⟩, hfind, rfl⟩ := Option.map_eq_some_iff.mp h
  have hmem := List.mem_of_find?_eq_some hfind
  have hprop := List.find?_some hfind
  simp only [Bool.and_eq_true, decide_eq_true_eq] at hprop
  obtain ⟨rfl, rfl⟩ := hprop
  exact List.mem_reverse.mp hmem

lemma exists_next?_of_mem_edges (h : ⟨i, j, .next⟩ ∈ g.edges) : ∃ k, g.next? i = some k := by
  rw [next?]
  cases hfind : g.edges.reverse.find? fun e => e.source = i && e.relation = .next with
  | none => exact absurd (List.find?_eq_none.mp hfind _ (List.mem_reverse.mpr h)) (by simp)
  | some e => exact ⟨_, rfl⟩

lemma HasOneNext.target_eq (h : g.HasOneNext) (hi : g.nodes[i]? = some (.step s))
    (hj : ⟨i, j, .next⟩ ∈ g.edges) (hk : ⟨i, k, .next⟩ ∈ g.edges) : j = k := by
  have hstep (l : Nat) : g.IsNext ⟨i, l, .next⟩ := ⟨rfl, by simp [hi, Node.kind]⟩
  exact h _ hj _ hk (hstep j) (hstep k) rfl

lemma HasOneNext.next?_eq (h : g.HasOneNext) (hi : g.nodes[i]? = some (.step s))
    (he : ⟨i, j, .next⟩ ∈ g.edges) : g.next? i = some j := by
  obtain ⟨k, hk⟩ := exists_next?_of_mem_edges he
  rw [hk, h.target_eq hi (mem_edges_of_next? hk) he]

/-- One more step behind a row that does not have it yet. -/
lemma IsRow.concat (h : g.IsRow c row) (hlast : row.getLast? = some i) (hnext : g.next? i = some j)
    (hnew : j ∉ row) : g.IsRow c (row ++ [j]) where
  begins := by rw [List.head?_append, h.begins, Option.some_or]
  follows := by
    refine h.follows.append (List.isChain_singleton j) fun a ha b hb => ?_
    rw [hlast, Option.mem_some_iff] at ha
    rw [List.head?_singleton, Option.mem_some_iff] at hb
    rw [← ha, ← hb, hnext]
  nodup := List.Nodup.append h.nodup (List.nodup_singleton j) (List.disjoint_singleton.mpr hnew)

lemma IsRow.getElem?_zero (h : g.IsRow c row) : row[0]? = some c := by
  rw [← List.head?_eq_getElem?, h.begins]

lemma IsRow.next?_eq (h : g.IsRow c row) (hi : row[k]? = some i) (hj : row[k + 1]? = some j) :
    g.next? i = some j := by
  obtain ⟨hk, rfl⟩ := List.getElem?_eq_some_iff.mp hj
  obtain ⟨_, rfl⟩ := List.getElem?_eq_some_iff.mp hi
  exact List.isChain_iff_getElem.mp h.follows k hk

/-- A row stays within the graph. -/
lemma IsRow.lt_length (h : g.IsRow c row) (hg : g.IsJoined) (hc : c < g.nodes.length)
    (hi : row[k]? = some i) : i < g.nodes.length := by
  cases k with
  | zero => exact Option.some.inj (h.getElem?_zero.symm.trans hi) ▸ hc
  | succ k =>
    have hlt := Nat.lt_of_succ_lt (List.getElem?_eq_some_iff.mp hi).1
    exact hg _ (mem_edges_of_next? (h.next?_eq (List.getElem?_eq_getElem hlt) hi))

lemma isRow_followSteps (h : g.IsRow c passed) (hlast : passed.getLast? = some i) (fuel : Nat) :
    g.IsRow c (g.followSteps fuel passed i) := by
  induction fuel generalizing passed i with
  | zero => exact h
  | succ fuel ih =>
    rw [followSteps]
    split
    · exact h
    · next j hnext =>
      split
      · exact h
      · next hnew =>
        rw [List.contains_iff_mem] at hnew
        exact ih (h.concat hlast hnext hnew) List.getLast?_concat

/-- A row is no longer than the graph, so that it is closed before the fuel is used up. -/
lemma isClosed_followSteps (hg : g.IsJoined) (hc : c < g.nodes.length) (h : g.IsRow c passed)
    (hlast : passed.getLast? = some i) {fuel : Nat}
    (hfuel : g.nodes.length ≤ fuel + passed.length) : g.IsClosed (g.followSteps fuel passed i) := by
  induction fuel generalizing passed i with
  | zero =>
    refine ⟨i, hlast, fun j hj => ?_⟩
    have hsub : passed.Subperm (List.range g.nodes.length) :=
      List.Nodup.subperm h.nodup fun j hj => by
        obtain ⟨k, hk⟩ := List.mem_iff_getElem?.mp hj
        exact List.mem_range.mpr (h.lt_length hg hc hk)
    have hperm := hsub.perm_of_length_le (by simpa using hfuel)
    exact hperm.mem_iff.mpr (List.mem_range.mpr (hg _ (mem_edges_of_next? hj)))
  | succ fuel ih =>
    rw [followSteps]
    split
    · next hnone => exact ⟨i, hlast, by simp [hnone]⟩
    · next j hnext =>
      split
      · next hmem => exact ⟨i, hlast, by simpa [hnext] using hmem⟩
      · next hnew =>
        rw [List.contains_iff_mem] at hnew
        refine ih (h.concat hlast hnext hnew) List.getLast?_concat ?_
        rw [List.length_append, List.length_singleton]
        omega

lemma isRow_stepsFrom (g : Graph) (c : Nat) : g.IsRow c (g.stepsFrom c) :=
  isRow_followSteps ⟨rfl, List.isChain_singleton c, List.nodup_singleton c⟩ rfl _

lemma isClosed_stepsFrom (hg : g.IsJoined) (hc : c < g.nodes.length) :
    g.IsClosed (g.stepsFrom c) :=
  isClosed_followSteps hg hc ⟨rfl, List.isChain_singleton c, List.nodup_singleton c⟩ rfl (by simp)

/-! ### Places behind a step -/

lemma IsBehind.exists_step (h : g.IsBehind c k i) : ∃ s, g.nodes[i]? = some (.step s) := by
  cases h with
  | self hs => exact ⟨_, hs⟩
  | next _ _ hs => exact ⟨_, hs⟩

/-- Where no step has two steps after it, one step at most is in each place. -/
lemma IsBehind.unique (hg : g.HasOneNext) (hi : g.IsBehind c k i) (hj : g.IsBehind c k j) :
    i = j := by
  induction hi generalizing j with
  | self _ =>
    cases hj with
    | self _ => rfl
  | next _ he _ ih =>
    cases hj with
    | next hj he' _ =>
      obtain rfl := ih hj
      obtain ⟨s, hs⟩ := hj.exists_step
      exact hg.target_eq hs he he'

/-- Behind its first place a row does not come to its first node again. -/
lemma IsRow.ne_iff (h : g.IsRow c row) (hi : row[k]? = some i) : i ≠ c ↔ 0 < k := by
  rw [Nat.pos_iff_ne_zero, not_iff_not]
  have hlt := (List.getElem?_eq_some_iff.mp hi).1
  constructor
  · rintro rfl
    exact (List.getElem?_inj hlt h.nodup).mp (hi.trans h.getElem?_zero.symm)
  · rintro rfl
    exact Option.some.inj (hi.symm.trans h.getElem?_zero)

/-- A row of steps passes the places one by one. -/
lemma IsRow.isBehind (h : g.IsRow c row) (hi : row[k]? = some i)
    (hsteps : ∀ l ≤ k, ∀ z ∈ row[l]?, ∃ s, g.nodes[z]? = some (.step s)) : g.IsBehind c k i := by
  induction k generalizing i with
  | zero =>
    obtain rfl := Option.some.inj (h.getElem?_zero.symm.trans hi)
    obtain ⟨s, hs⟩ := hsteps 0 le_rfl c hi
    exact .self hs
  | succ k ih =>
    have hlt := (List.getElem?_eq_some_iff.mp hi).1
    have hbefore : row[k]? = some row[k] := List.getElem?_eq_getElem (Nat.lt_of_succ_lt hlt)
    obtain ⟨s, hs⟩ := hsteps (k + 1) le_rfl i hi
    exact .next (ih hbefore fun l hl => hsteps l (hl.trans k.le_succ))
      (mem_edges_of_next? (h.next?_eq hbefore hi)) hs

/-- A closed row has every step that stands behind its first one, in the first of its places. -/
lemma IsRow.exists_place (h : g.IsRow c row) (hclosed : g.IsClosed row) (hg : g.HasOneNext)
    (hi : g.IsBehind c k i) :
    ∃ k' ≤ k, row[k']? = some i ∧ ∀ l ≤ k', ∀ z ∈ row[l]?, g.IsBehind c l z := by
  induction hi with
  | self hs =>
    refine ⟨0, le_rfl, h.getElem?_zero, fun l hl z hz => ?_⟩
    obtain rfl := Nat.le_zero.mp hl
    obtain rfl := Option.some.inj (h.getElem?_zero.symm.trans hz)
    exact .self hs
  | @next k i j s hi he hs ih =>
    obtain ⟨k', hk', hplace, hbefore⟩ := ih
    obtain ⟨s', hs'⟩ := hi.exists_step
    have hnext := hg.next?_eq hs' he
    cases hafter : row[k' + 1]? with
    | some z =>
      obtain rfl := Option.some.inj ((h.next?_eq hplace hafter).symm.trans hnext)
      refine ⟨k' + 1, Nat.succ_le_succ hk', hafter, fun l hl y hy => ?_⟩
      rcases Nat.le_succ_iff.mp hl with hl | rfl
      · exact hbefore l hl y hy
      · obtain rfl := Option.some.inj (hafter.symm.trans hy)
        exact .next (hbefore k' le_rfl i hplace) he hs
    | none =>
      -- The row ends here, and what follows has come before.
      obtain ⟨i', hlast, hmem⟩ := hclosed
      have hlength : row.length = k' + 1 :=
        (List.getElem?_eq_none_iff.mp hafter).antisymm (List.getElem?_eq_some_iff.mp hplace).1
      rw [Option.mem_def, List.getLast?_eq_getElem?, hlength, Nat.add_sub_cancel, hplace] at hlast
      obtain rfl := Option.some.inj hlast
      obtain ⟨l, hl⟩ := List.mem_iff_getElem?.mp (hmem j hnext)
      have hlt : l ≤ k' :=
        Nat.lt_succ_iff.mp ((List.getElem?_eq_some_iff.mp hl).1.trans_eq hlength)
      exact ⟨l, (hlt.trans hk').trans k.le_succ, hl, fun m hm => hbefore m (hm.trans hlt)⟩

/-! ### Graphs that are built -/

lemma IsOrdered.isJoined (h : g.IsOrdered) : g.IsJoined := fun e he => (h.lt_length e he).2

lemma IsOrdered.hasOneNext (h : g.IsOrdered) : g.HasOneNext := by
  rintro ⟨i, j, r⟩ he ⟨i', k, r'⟩ he' ⟨rfl, -⟩ ⟨rfl, -⟩ rfl
  obtain ⟨n, m, hn, hm, -⟩ := h.sorted _ he
  obtain ⟨n', m', hn', hm', -⟩ := h.sorted _ he'
  obtain rfl := Option.some.inj (hn.symm.trans hn')
  obtain ⟨p, a, hkey, hmkey⟩ :=
    h.follows _ _ ⟨i, j, h.keyed.number? hn, h.keyed.number? hm, he⟩
  obtain ⟨q, b, hkey', hmkey'⟩ :=
    h.follows _ _ ⟨i, k, h.keyed.number? hn, h.keyed.number? hm', he'⟩
  obtain ⟨rfl, rfl⟩ := stepKey_inj.mp (hkey.symm.trans hkey')
  exact h.keyed.eq hm hm' (hmkey.trans hmkey'.symm)

end WorkflowAudit.Graph
