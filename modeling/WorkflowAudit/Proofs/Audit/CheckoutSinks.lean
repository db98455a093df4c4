import WorkflowAudit.Audit.PwnRequest
import WorkflowAudit.Proofs.Graph.NextSteps

/-! The sink that is named for a checkout is the first one behind it that no gate shields. Steps
that an outsider's run skips are passed over, whatever they are. -/

namespace WorkflowAudit.Audit

open WorkflowAudit.Graph (Node Step)

/-- A sink that an outsider's run comes to when it goes on from a checkout. The checkout itself may
be one, and may be a gate. -/
structure IsExposedSink (g : Graph) (c k y : Nat) (s : Step) : Prop where
  behind : g.IsBehind c k y
  step : g.nodes[y]? = some (.step s)
  isOpen : s.condition.isRestricted = false
  sink : s.traits.isSink = true
  noGate : ∀ j ≤ k, 0 < j → ∀ z, g.IsBehind c j z → g.IsOpen z → ¬ g.IsHardGate z

/-- The search behind a checkout goes on at a node. -/
def IsPassed (g : Graph) (c z : Nat) : Prop :=
  ∃ s, g.nodes[z]? = some (.step s) ∧
    (s.condition.isRestricted = true ∨
      ¬ (z ≠ c ∧ s.traits.hardGate = true) ∧ s.traits.isSink = false)

/-- The search behind a checkout ends with a node. -/
structure IsNamed (g : Graph) (c y : Nat) (s : Step) : Prop where
  step : g.nodes[y]? = some (.step s)
  isOpen : s.condition.isRestricted = false
  noGate : ¬ (y ≠ c ∧ s.traits.hardGate = true)
  sink : s.traits.isSink = true

/-- Graphs that differ in steps that are skipped in both of them, if in any. -/
structure AgreesOnOpen (g g' : Graph) : Prop where
  edges : g'.edges = g.edges
  length : g'.nodes.length = g.nodes.length
  nodes : ∀ i : Nat, g'.nodes[i]? = g.nodes[i]? ∨
    ∃ s s', g.nodes[i]? = some (.step s) ∧ g'.nodes[i]? = some (.step s') ∧
      s.condition.isRestricted = true ∧ s'.condition.isRestricted = true

variable {g g' : Graph} {c i k y z : Nat} {row : List Nat} {s : Step} {label : String}

/-! ### The search along a row -/

lemma sinkAmong_cons_of_isPassed (h : IsPassed g c z) :
    sinkAmong g c (z :: row) = sinkAmong g c row := by
  obtain ⟨s, hs, hskipped | ⟨hgate, hsink⟩⟩ := h
  · simp [sinkAmong, hs, hskipped]
  · simp [sinkAmong, hs, hgate, hsink]

lemma sinkAmong_cons_of_isNamed (h : IsNamed g c y s) :
    sinkAmong g c (y :: row) = some s.label := by
  simp [sinkAmong, h.step, h.isOpen, h.noGate, h.sink]

lemma sinkAmong_cons_eq_some (h : sinkAmong g c (z :: row) = some label) :
    IsPassed g c z ∨ ∃ s, IsNamed g c z s ∧ s.label = label := by
  rw [sinkAmong] at h
  split at h
  · next s hs =>
    split at h
    · next hskipped => exact .inl ⟨s, hs, .inl hskipped⟩
    · next hopen =>
      split at h
      · cases h
      · next hgate =>
        have hno : ¬ (z ≠ c ∧ s.traits.hardGate = true) := by simpa using hgate
        split at h
        · next hsink =>
          exact .inr ⟨s, ⟨hs, by simpa using hopen, hno, hsink⟩, Option.some.inj h⟩
        · next hsink => exact .inl ⟨s, hs, .inr ⟨hno, by simpa using hsink⟩⟩
  · cases h

lemma sinkAmong_eq_some_iff : sinkAmong g c row = some label ↔
    ∃ (k y : Nat) (s : Step), row[k]? = some y ∧ IsNamed g c y s ∧ s.label = label ∧
      ∀ j < k, ∀ z ∈ row[j]?, IsPassed g c z := by
  induction row with
  | nil => simp [sinkAmong]
  | cons z row ih =>
    constructor
    · intro h
      rcases sinkAmong_cons_eq_some h with hpassed | ⟨s, hs, hlabel⟩
      · rw [sinkAmong_cons_of_isPassed hpassed, ih] at h
        obtain ⟨k, y, s, hy, hs, hlabel, hbefore⟩ := h
        refine ⟨k + 1, y, s, hy, hs, hlabel, fun j hj x hx => ?_⟩
        cases j with
        | zero => exact Option.some.inj hx ▸ hpassed
        | succ j => exact hbefore j (Nat.succ_lt_succ_iff.mp hj) x hx
      · exact ⟨0, z, s, rfl, hs, hlabel, fun j hj => absurd hj j.not_lt_zero⟩
    · rintro ⟨k, y, s, hy, hs, hlabel, hbefore⟩
      cases k with
      | zero =>
        obtain rfl := Option.some.inj hy
        rw [sinkAmong_cons_of_isNamed hs, hlabel]
      | succ k =>
        rw [sinkAmong_cons_of_isPassed (hbefore 0 k.succ_pos z rfl)]
        exact ih.mpr ⟨k, y, s, hy, hs, hlabel, fun j hj => hbefore (j + 1) (Nat.succ_lt_succ hj)⟩

/-! ### The first exposed sink -/

lemma isOpen_step_iff (hs : g.nodes[z]? = some (.step s)) :
    g.IsOpen z ↔ s.condition.isRestricted = false :=
  Graph.isOpen_iff hs

lemma isHardGate_step_iff (hs : g.nodes[z]? = some (.step s)) :
    g.IsHardGate z ↔ s.traits.hardGate = true := by
  rw [Graph.isHardGate_iff hs, Node.traits?, Option.any_some]

lemma IsExposedSink.of_le {j : Nat} (h : IsExposedSink g c k y s) (hj : j ≤ k)
    (hy : g.IsBehind c j y) : IsExposedSink g c j y s where
  behind := hy
  step := h.step
  isOpen := h.isOpen
  sink := h.sink
  noGate l hl := h.noGate l (hl.trans hj)

lemma IsNamed.not_isHardGate (h : IsNamed g c y s) (hne : y ≠ c) : ¬ g.IsHardGate y :=
  fun hgate => h.noGate ⟨hne, (isHardGate_step_iff h.step).mp hgate⟩

lemma IsPassed.not_isHardGate (h : IsPassed g c z) (hne : z ≠ c) (hopen : g.IsOpen z) :
    ¬ g.IsHardGate z := by
  obtain ⟨s, hs, hskipped | ⟨hno, -⟩⟩ := h
  · rw [isOpen_step_iff hs, hskipped] at hopen
    cases hopen
  · exact fun hgate => hno ⟨hne, (isHardGate_step_iff hs).mp hgate⟩

lemma IsPassed.not_isExposedSink (h : IsPassed g c z) : ¬ IsExposedSink g c k z s := by
  intro hs
  obtain ⟨t, ht, hpassed⟩ := h
  obtain rfl := Node.step.inj (Option.some.inj (ht.symm.trans hs.step))
  simp [hs.isOpen, hs.sink] at hpassed

lemma IsNamed.exists_step (h : IsNamed g c y s) : ∃ s, g.nodes[y]? = some (.step s) := ⟨s, h.step⟩

lemma IsPassed.exists_step (h : IsPassed g c z) : ∃ s, g.nodes[z]? = some (.step s) :=
  h.imp fun _ hs => hs.1

/-- In its place in a row the node that the search ends with is the first exposed sink. -/
lemma isExposedSink_of_isNamed (hg : g.HasOneNext) (hrow : g.IsRow c row) (hy : row[k]? = some y)
    (hs : IsNamed g c y s) (hbefore : ∀ j < k, ∀ z ∈ row[j]?, IsPassed g c z) :
    IsExposedSink g c k y s ∧ ∀ j < k, ∀ z s', ¬ IsExposedSink g c j z s' := by
  have hsteps : ∀ j ≤ k, ∀ z ∈ row[j]?, ∃ s, g.nodes[z]? = some (.step s) := by
    intro j hj z hz
    rcases hj.eq_or_lt with rfl | hj
    · exact Option.some.inj (hy.symm.trans hz) ▸ hs.exists_step
    · exact (hbefore j hj z hz).exists_step
  -- The places up to the end are those of the row.
  have hplace {j : Nat} (hj : j ≤ k) : ∃ z, row[j]? = some z ∧ ∀ x, g.IsBehind c j x → x = z := by
    have hlt := hj.trans_lt (List.getElem?_eq_some_iff.mp hy).1
    have hz : row[j]? = some row[j] := List.getElem?_eq_getElem hlt
    have hbehind := hrow.isBehind hz fun l hl => hsteps l (hl.trans hj)
    exact ⟨_, hz, fun x hx => hx.unique hg hbehind⟩
  refine ⟨⟨hrow.isBehind hy hsteps, hs.step, hs.isOpen, hs.sink, ?_⟩, ?_⟩
  · intro j hj hpos x hx hopen
    obtain ⟨z, hz, heq⟩ := hplace hj
    obtain rfl := heq x hx
    have hne : x ≠ c := (hrow.ne_iff hz).mpr hpos
    rcases hj.eq_or_lt with rfl | hj
    · obtain rfl := Option.some.inj (hy.symm.trans hz)
      exact hs.not_isHardGate hne
    · exact (hbefore j hj x hz).not_isHardGate hne hopen
  · intro j hj x t hx
    obtain ⟨z, hz, heq⟩ := hplace hj.le
    obtain rfl := heq x hx.behind
    exact (hbefore j hj x hz).not_isExposedSink hx

lemma IsExposedSink.isNamed (h : IsExposedSink g c k y s) (hrow : g.IsRow c row)
    (hy : row[k]? = some y) : IsNamed g c y s where
  step := h.step
  isOpen := h.isOpen
  noGate := by
    rintro ⟨hne, hgate⟩
    exact h.noGate k le_rfl ((hrow.ne_iff hy).mp hne) y h.behind
      ((isOpen_step_iff h.step).mpr h.isOpen) ((isHardGate_step_iff h.step).mpr hgate)
  sink := h.sink

lemma IsExposedSink.isPassed (h : IsExposedSink g c k y s) (hrow : g.IsRow c row)
    (hz : row[i]? = some z) (hi : i < k) (hbehind : g.IsBehind c i z)
    (hno : ∀ s', ¬ IsExposedSink g c i z s') : IsPassed g c z := by
  obtain ⟨t, ht⟩ := hbehind.exists_step
  refine ⟨t, ht, ?_⟩
  cases hopen : t.condition.isRestricted with
  | true => exact .inl rfl
  | false =>
    have hgates := fun j (hj : j ≤ i) => h.noGate j (hj.trans hi.le)
    refine .inr ⟨?_, ?_⟩
    · rintro ⟨hne, hgate⟩
      exact hgates i le_rfl ((hrow.ne_iff hz).mp hne) z hbehind ((isOpen_step_iff ht).mpr hopen)
        ((isHardGate_step_iff ht).mpr hgate)
    · rw [← Bool.not_eq_true]
      exact fun hsink => hno t ⟨hbehind, ht, hopen, hsink, hgates⟩

/-- Along a closed row the search finds the first exposed sink. -/
lemma sinkAmong_eq_some_iff_of_isRow (hg : g.HasOneNext) (hrow : g.IsRow c row)
    (hclosed : g.IsClosed row) : sinkAmong g c row = some label ↔
      ∃ k y s, IsExposedSink g c k y s ∧ s.label = label ∧
        ∀ j < k, ∀ z s', ¬ IsExposedSink g c j z s' := by
  rw [sinkAmong_eq_some_iff]
  constructor
  · rintro ⟨k, y, s, hy, hs, hlabel, hbefore⟩
    obtain ⟨hexposed, hfirst⟩ := isExposedSink_of_isNamed hg hrow hy hs hbefore
    exact ⟨k, y, s, hexposed, hlabel, hfirst⟩
  · rintro ⟨k, y, s, hs, hlabel, hfirst⟩
    obtain ⟨k', hk', hy, hplaces⟩ := hrow.exists_place hclosed hg hs.behind
    have hs' : IsExposedSink g c k' y s := hs.of_le hk' (hplaces k' le_rfl y hy)
    refine ⟨k', y, s, hy, hs'.isNamed hrow hy, hlabel, fun j hj z hz => ?_⟩
    exact hs'.isPassed hrow hz hj (hplaces j hj.le z hz) (hfirst j (hj.trans_le hk') z)

lemma sinkAmong_eq_none_iff_of_isRow (hg : g.HasOneNext) (hrow : g.IsRow c row)
    (hclosed : g.IsClosed row) :
    sinkAmong g c row = none ↔ ∀ k y s, ¬ IsExposedSink g c k y s := by
  classical
  have hsome (label : String) := @sinkAmong_eq_some_iff_of_isRow g c row label hg hrow hclosed
  constructor
  · intro hnone k y s hs
    have hex : ∃ k y s, IsExposedSink g c k y s := ⟨k, y, s, hs⟩
    obtain ⟨y', s', hs'⟩ := Nat.find_spec hex
    have hfound := (hsome s'.label).mpr ⟨Nat.find hex, y', s', hs', rfl, fun j hj z t ht =>
      Nat.find_min hex hj ⟨z, t, ht⟩⟩
    exact absurd (hnone.symm.trans hfound) (by simp)
  · intro hno
    refine Option.eq_none_iff_forall_ne_some.mpr fun label hlabel => ?_
    obtain ⟨k, y, s, hs, -⟩ := (hsome label).mp hlabel
    exact hno k y s hs

/-! ### Skipped steps -/

lemma AgreesOnOpen.stepsFrom_eq (h : AgreesOnOpen g g') (c : Nat) :
    g'.stepsFrom c = g.stepsFrom c := by
  have hnext (i : Nat) : g'.next? i = g.next? i := by rw [Graph.next?, Graph.next?, h.edges]
  have hfollow (fuel : Nat) (passed : List Nat) (i : Nat) :
      g'.followSteps fuel passed i = g.followSteps fuel passed i := by
    induction fuel generalizing passed i with
    | zero => rfl
    | succ fuel ih => simp only [Graph.followSteps, hnext, ih]
  rw [Graph.stepsFrom, Graph.stepsFrom, hfollow, h.length]

lemma AgreesOnOpen.sinkAmong_eq (h : AgreesOnOpen g g') (row : List Nat) :
    sinkAmong g' c row = sinkAmong g c row := by
  induction row with
  | nil => rfl
  | cons z row ih =>
    rcases h.nodes z with heq | ⟨s, s', hs, hs', hskipped, hskipped'⟩
    · simp only [sinkAmong, heq, ih]
    · rw [sinkAmong_cons_of_isPassed ⟨s, hs, .inl hskipped⟩,
        sinkAmong_cons_of_isPassed ⟨s', hs', .inl hskipped'⟩, ih]

lemma AgreesOnOpen.sinkAfter_eq (h : AgreesOnOpen g g') (c : Nat) :
    sinkAfter g' c = sinkAfter g c := by
  rw [sinkAfter, sinkAfter, h.stepsFrom_eq, h.sinkAmong_eq]

/-- The graph with another step in a place. -/
def withStep (g : Graph) (i : Nat) (s : Step) : Graph := { g with nodes := g.nodes.set i (.step s) }

lemma agreesOnOpen_withStep {s' : Step} (hs : g.nodes[i]? = some (.step s))
    (hskipped : s.condition.isRestricted = true) (hskipped' : s'.condition.isRestricted = true) :
    AgreesOnOpen g (withStep g i s') where
  edges := rfl
  length := List.length_set
  nodes j := by
    by_cases hj : i = j
    · subst hj
      exact .inr ⟨s, s', hs, List.getElem?_set_self (List.getElem?_eq_some_iff.mp hs).1,
        hskipped, hskipped'⟩
    · exact .inl (List.getElem?_set_ne hj)

/-- From any step the steps behind it are gone through once each, also in a circle. Where no step
has two steps after it, as in all graphs that are built of documents, the sink that is named is the
first exposed one. It is the same whatever skipped steps are. -/
theorem first_exposed_sink_named :
    (∀ os : List Operation, (∀ o ∈ os, o.isConnect = false ∧ o.IsNumbered) →
      (IndexedGraph.ofOperations os).toGraph.IsJoined ∧
        (IndexedGraph.ofOperations os).toGraph.HasOneNext) ∧
      ∀ (g : Graph) (c : Nat) (s : Step), g.IsJoined → g.nodes[c]? = some (.step s) →
        g.IsRow c (g.stepsFrom c) ∧ g.IsClosed (g.stepsFrom c) ∧
        (g.HasOneNext →
          (∀ label, sinkAfter g c = some label ↔
            ∃ k y t, IsExposedSink g c k y t ∧ t.label = label ∧
              ∀ j < k, ∀ z t', ¬ IsExposedSink g c j z t') ∧
          (sinkAfter g c = none ↔ ∀ k y t, ¬ IsExposedSink g c k y t)) ∧
        ∀ g', AgreesOnOpen g g' → sinkAfter g' c = sinkAfter g c := by
  refine ⟨fun os hos => ?_, fun g c s hg hc => ?_⟩
  · have hordered := Graph.isOrdered_ofOperations hos
    exact ⟨hordered.isJoined, hordered.hasOneNext⟩
  · have hrow := Graph.isRow_stepsFrom g c
    have hclosed := Graph.isClosed_stepsFrom hg (List.getElem?_eq_some_iff.mp hc).1
    exact ⟨hrow, hclosed, fun hone =>
      ⟨fun label => sinkAmong_eq_some_iff_of_isRow hone hrow hclosed,
        sinkAmong_eq_none_iff_of_isRow hone hrow hclosed⟩, fun g' h => h.sinkAfter_eq c⟩

lemma exists_step_of_kind {n : Node} (h : n.kind = .step) : ∃ s, n = .step s := by
  cases n with
  | step s => exact ⟨s, rfl⟩
  | repo _ | workflow _ | job _ | action _ => cases h

/-- A workflow that checks out a pull request, skips a gate and runs code of the tree. -/
def trial : Document :=
  Document.parse ("on: pull_request_target\njobs:\n  build:\n    steps:\n" ++
    "    - run: gh pr checkout 7\n" ++
    "    - if: 'false'\n      run: gh api /collaborators/me || exit 1\n" ++
    "    - run: make\n") "o/r" "HEAD" "ci.yml"

/-- The steps come in as nodes 3, 4 and 5. -/
def trialOperations : List Operation := [.addWorkflow .default trial]

/-- The last step leads back to the first one. -/
def circle : Graph :=
  (IndexedGraph.ofOperations (trialOperations ++ [.connect 5 3 .next])).toGraph

theorem skipped_gate_passed_over :
    (∀ o ∈ trialOperations, o.isConnect = false ∧ o.IsNumbered) ∧
      (IndexedGraph.ofOperations trialOperations).toGraph.HasOneNext ∧
      circle.IsJoined ∧ circle.HasOneNext ∧ circle.IsRow 3 [3, 4, 5] ∧ circle.IsClosed [3, 4, 5] ∧
      (∃ k y s, IsExposedSink circle 3 k y s ∧ s.label = "step 2" ∧
        ∀ j < k, ∀ z s', ¬ IsExposedSink circle 3 j z s') ∧
      ∃ s, circle.nodes[4]? = some (.step s) ∧ s.traits.hardGate = true ∧
        s.condition.isRestricted = true ∧
        sinkAfter (withStep circle 4 { s with traits := { s.traits with isSink := true } }) 3 =
          sinkAfter circle 3 := by
  have hos : ∀ o ∈ trialOperations, o.isConnect = false ∧ o.IsNumbered := by
    intro o ho
    obtain rfl := List.mem_singleton.mp ho
    exact ⟨rfl, Document.isNumbered_parse _ _ _ _⟩
  obtain ⟨hjoined, hone, ⟨n, hn, hkind⟩, ⟨m, hm, hmkind, hgate, hskipped⟩, hsteps, hsink⟩ :
      circle.IsJoined ∧ circle.HasOneNext ∧ (∃ n ∈ circle.nodes[3]?, n.kind = .step) ∧
        (∃ m ∈ circle.nodes[4]?, m.kind = .step ∧ m.traits?.any (·.hardGate) = true ∧
          m.isRestricted = true) ∧
        circle.stepsFrom 3 = [3, 4, 5] ∧ sinkAfter circle 3 = some "step 2" := by
    rw [circle, (IndexedGraph.represents_ofOperations _).graph]
    decide +kernel
  obtain ⟨s, rfl⟩ := exists_step_of_kind hkind
  obtain ⟨t, rfl⟩ := exists_step_of_kind hmkind
  obtain ⟨hbuilt, hall⟩ := first_exposed_sink_named
  obtain ⟨hrow, hclosed, hnamed, hagree⟩ := hall circle 3 s hjoined hn
  rw [hsteps] at hrow hclosed
  exact ⟨hos, (hbuilt _ hos).2, hjoined, hone, hrow, hclosed,
    ((hnamed hone).1 "step 2").mp hsink, t, hm, hgate, hskipped,
    hagree _ (agreesOnOpen_withStep hm hskipped hskipped)⟩

end WorkflowAudit.Audit
