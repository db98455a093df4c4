import WorkflowAudit.Proofs.Evaluation.Coverage

/-! Whatever a test of values reckons with is attained by a choice. An outcome that is not a wildcard
is a choice already; for a wildcard, a value that passes the test is made up from the other side. -/

namespace WorkflowAudit

/-! ### Values without NaN equal themselves -/

lemma Binary64.equal_self {x : Binary64} (h : x.isNaN = false) : x.equal x = true := by
  simp [equal, h]

lemma Numeral.same_self {n : Numeral} (h : n.isNaN = false) : n.same n = true := by
  cases n with
  | natural n => simp [same]
  | negative n => simp [same]
  | real x => exact Binary64.equal_self h

mutual

lemma Json.same_self : (v : Json) → v.hasNoNaN = true → v.same v = true
  | .null, _ => by simp [Json.same]
  | .bool b, _ => by simp [Json.same]
  | .text s, _ => by simp [Json.same]
  | .number n, h => by
    rw [Json.same]
    exact Numeral.same_self (by simpa [Json.hasNoNaN] using h)
  | .array items, h => by
    rw [Json.same]
    exact Json.sameItems_self items (by rwa [Json.hasNoNaN] at h)
  | .object fields, h => by
    rw [Json.same]
    exact Json.sameFields_self fields (by rwa [Json.hasNoNaN] at h)

lemma Json.sameItems_self : (items : List Json) → Json.haveNoNaN items = true →
    Json.sameItems items items = true
  | [], _ => by simp [Json.sameItems]
  | v :: rest, h => by
    rw [Json.haveNoNaN, Bool.and_eq_true] at h
    rw [Json.sameItems, Bool.and_eq_true]
    exact ⟨Json.same_self v h.1, Json.sameItems_self rest h.2⟩

lemma Json.sameFields_self : (fields : List (String × Json)) →
    Json.fieldsHaveNoNaN fields = true → Json.sameFields fields fields = true
  | [], _ => by simp [Json.sameFields]
  | (k, v) :: rest, h => by
    rw [Json.fieldsHaveNoNaN, Bool.and_eq_true] at h
    simp only [Json.sameFields, beq_self_eq_true, Bool.true_and, Bool.and_eq_true]
    exact ⟨Json.same_self v h.1, Json.sameFields_self rest h.2⟩

end

namespace Value

mutual

lemma same_self : (v : Value) → v.isDefinite = true → v.same v = true
  | .bool b, _ => by simp [same]
  | .text s, _ => by simp [same]
  | .number x, h => by
    rw [same]
    exact Binary64.equal_self (by simpa [isDefinite] using h)
  | .list items, h => by
    rw [same]
    exact sameAll_self items (by rwa [isDefinite] at h)
  | .object fields, h => by
    rw [same]
    exact Json.sameFields_self fields (by rwa [isDefinite] at h)
  | .wildcard _, h | .flexible _, h => by simp [isDefinite] at h

lemma sameAll_self : (vs : List Value) → areDefinite vs = true → sameAll vs vs = true
  | [], _ => by simp [sameAll]
  | v :: rest, h => by
    rw [areDefinite, Bool.and_eq_true] at h
    rw [sameAll, Bool.and_eq_true]
    exact ⟨same_self v h.1, sameAll_self rest h.2⟩

end

lemma agrees_self {v : Value} (h : v.isDefinite = true) : agrees v v = true := by
  have hsame := same_self v h
  cases v with
  | text s => exact Text.sameIgnoringCase_self s
  | wildcard origin => simp [isDefinite] at h
  | flexible options => simp [isDefinite] at h
  | bool b => simp [agrees]
  | _ => simpa only [agrees, same] using hsame

lemma areDefinite_iff (vs : List Value) : areDefinite vs = true ↔ ∀ v ∈ vs, v.isDefinite = true := by
  induction vs with
  | nil => simp [areDefinite]
  | cons v rest ih => simp [areDefinite, ih]

/-! ### Outcomes as choices -/

/-- The value of a term: what a context is bound to, or a number that is written out. -/
def IsOperand (a : Value) : Prop := a.isBinding = true ∨ ∃ x, a = .number x

lemma isOperand_of_isScalar {a : Value} (h : a.isScalar = true) : a.IsOperand := by
  cases a with
  | number x => exact .inr ⟨x, rfl⟩
  | text s => exact .inl rfl
  | bool b => exact .inl rfl
  | _ => cases h

lemma exists_of_mem_outcomesOfAll {o : Value} {vs : List Value} (h : o ∈ outcomesOfAll vs) :
    ∃ v ∈ vs, o ∈ v.outcomes := by
  induction vs with
  | nil => simp [outcomesOfAll] at h
  | cons v rest ih =>
    rw [outcomesOfAll, List.mem_append] at h
    rcases h with h | h
    · exact ⟨v, by simp, h⟩
    · obtain ⟨w, hw, ho⟩ := ih h
      exact ⟨w, List.mem_cons_of_mem _ hw, ho⟩

lemma admits_of_mem_outcomes {a o : Value} (ha : a.IsOperand) (hw : a.isWildcard = false)
    (ho : o ∈ a.outcomes) : a.Admits isDefinite o ∧ (o.isDefinite = true ∨ ∃ x, o = .number x) := by
  cases a with
  | wildcard origin => simp [isWildcard] at hw
  | flexible options =>
    rcases ha with hb | ⟨x, hx⟩
    · have hall : options.all isDefinite = true := (Bool.and_eq_true _ _ ▸ hb).2
      rw [outcomes] at ho
      obtain ⟨v, hv, hov⟩ := exists_of_mem_outcomesOfAll ho
      have hdef := List.all_eq_true.mp hall v hv
      rw [outcomes_of_isConcrete (isConcrete_of_isDefinite v hdef), List.mem_singleton] at hov
      subst hov
      exact ⟨hv, .inl hdef⟩
    · cases hx
  | _ =>
    rw [outcomes, List.mem_singleton] at ho
    · subst ho
      exact ⟨rfl, ha⟩
    all_goals simp

lemma isConcrete_of_choice {o : Value} (h : o.isDefinite = true ∨ ∃ x, o = .number x) :
    o.isConcrete = true := by
  rcases h with h | ⟨x, rfl⟩
  · exact isConcrete_of_isDefinite o h
  · rfl

lemma exists_admits {a : Value} (ha : a.IsOperand) :
    ∃ v, a.Admits isDefinite v ∧ v.isConcrete = true := by
  cases a with
  | wildcard origin => exact ⟨.text "", rfl, rfl⟩
  | flexible options =>
    rcases ha with hb | ⟨x, hx⟩
    · obtain ⟨hne, hall⟩ := Bool.and_eq_true _ _ ▸ hb
      cases options with
      | nil => cases hne
      | cons v rest =>
        have hdef := List.all_eq_true.mp hall v (by simp)
        exact ⟨v, by simp [Admits], isConcrete_of_isDefinite v hdef⟩
    · cases hx
  | _ => exact ⟨_, rfl, isConcrete_of_choice ha⟩

/-! ### Choices that pass a test -/

lemma admits_of_isWildcard {a v : Value} (ha : a.isWildcard = true) (hv : v.isDefinite = true) :
    a.Admits isDefinite v := by
  cases a with
  | wildcard origin => exact hv
  | _ => cases ha

/-- What holds of an outcome holds of a choice. A wildcard is taken for a value of which it holds. -/
lemma exists_outcome {p : Value → Bool} {a : Value} (ha : a.IsOperand) (h : a.outcomes.any p = true)
    {w : Value} (hw : w.isDefinite = true) (hp : w.outcomes.any p = true) :
    ∃ v, a.Admits isDefinite v ∧ v.outcomes.any p = true := by
  cases hwild : a.isWildcard with
  | true => exact ⟨w, admits_of_isWildcard hwild hw, hp⟩
  | false =>
    obtain ⟨o, ho, hpo⟩ := List.any_eq_true.mp h
    obtain ⟨hadmits, hchoice⟩ := admits_of_mem_outcomes ha hwild ho
    refine ⟨o, hadmits, ?_⟩
    rw [outcomes_of_isConcrete (isConcrete_of_choice hchoice)]
    simpa using hpo

lemma exists_truthy {a : Value} (ha : a.IsOperand) (h : a.truthy = true) :
    ∃ v, a.Admits isDefinite v ∧ v.truthy = true := by
  have hw : (Value.bool true).outcomes.any holds = true := rfl
  exact exists_outcome ha h rfl hw

lemma exists_falsy {a : Value} (ha : a.IsOperand) (h : a.falsy = true) :
    ∃ v, a.Admits isDefinite v ∧ v.falsy = true := by
  have hw : (Value.bool false).outcomes.any (fun o => o.isWildcard || !o.holds) = true := rfl
  exact exists_outcome ha h rfl hw

/-- A text is made up to equal a value, and a list to differ from it. -/
lemma exists_relates (op : BinaryOp) {b : Value} (hb : b.isScalar = true) :
    ∃ v : Value, v.isDefinite = true ∧ op.relates v b = true ∧ op.relates b v = true := by
  by_cases hop : op = .notEqual
  · subst hop
    refine ⟨.list [], rfl, ?_⟩
    cases b <;> first | exact ⟨rfl, rfl⟩ | cases hb
  · have hrelates : op.relates = agrees := by
      cases op <;> first | rfl | exact absurd rfl hop
    rw [hrelates]
    refine ⟨.text b.display, rfl, ?_⟩
    have hself := Text.sameIgnoringCase_self b.display
    cases b with
    | bool p => exact ⟨hself, hself⟩
    | text s => exact ⟨hself, hself⟩
    | number x => exact ⟨hself, hself⟩
    | _ => cases hb

lemma admits_iff_of_isScalar {a v : Value} (h : a.isScalar = true) :
    a.Admits isDefinite v ↔ v = a := by
  cases a <;> first | exact Iff.rfl | cases h

lemma exists_related {related : Value → Value → Bool} {a b : Value} (ha : a.IsOperand)
    (hb : b.IsOperand) (hwa : a.isWildcard = false) (hwb : b.isWildcard = false)
    (h : meets related a b = true) :
    ∃ v w, a.Admits isDefinite v ∧ b.Admits isDefinite w ∧ v.isConcrete = true ∧
      w.isConcrete = true ∧ related v w = true := by
  rw [meets, hwb, Bool.false_or] at h
  obtain ⟨v, hv, hrest⟩ := List.any_eq_true.mp h
  obtain ⟨hadmits, hchoice⟩ := admits_of_mem_outcomes ha hwa hv
  rw [isWildcard_of_isConcrete (isConcrete_of_choice hchoice), Bool.false_or] at hrest
  obtain ⟨w, hw, hrelated⟩ := List.any_eq_true.mp hrest
  obtain ⟨hadmits', hchoice'⟩ := admits_of_mem_outcomes hb hwb hw
  rw [isWildcard_of_isConcrete (isConcrete_of_choice hchoice'), Bool.false_or] at hrelated
  exact ⟨v, w, hadmits, hadmits', isConcrete_of_choice hchoice, isConcrete_of_choice hchoice',
    hrelated⟩

lemma exists_meets (op : BinaryOp) {a b : Value} (ha : a.IsOperand) (hb : b.IsOperand)
    (hscalar : a.isScalar = true ∨ b.isScalar = true) (h : meets op.relates a b = true) :
    ∃ v w, a.Admits isDefinite v ∧ b.Admits isDefinite w ∧ meets op.relates v w = true := by
  cases hwa : a.isWildcard with
  | true =>
    -- One side is written out, so the other is the only wildcard.
    have hsb : b.isScalar = true := by
      refine hscalar.resolve_left fun hs => ?_
      rw [isWildcard_of_isConcrete (isConcrete_of_isScalar hs)] at hwa
      cases hwa
    obtain ⟨v, hv, hrelates, _⟩ := exists_relates op hsb
    refine ⟨v, b, admits_of_isWildcard hwa hv, (admits_iff_of_isScalar hsb).mpr rfl, ?_⟩
    rw [meets_of_isConcrete _ (isConcrete_of_isDefinite v hv) (isConcrete_of_isScalar hsb), hrelates]
  | false =>
    cases hwb : b.isWildcard with
    | true =>
      have hsa : a.isScalar = true := by
        refine hscalar.resolve_right fun hs => ?_
        rw [isWildcard_of_isConcrete (isConcrete_of_isScalar hs)] at hwb
        cases hwb
      obtain ⟨w, hw, _, hrelates⟩ := exists_relates op hsa
      refine ⟨a, w, (admits_iff_of_isScalar hsa).mpr rfl, admits_of_isWildcard hwb hw, ?_⟩
      rw [meets_of_isConcrete _ (isConcrete_of_isScalar hsa) (isConcrete_of_isDefinite w hw),
        hrelates]
    | false =>
      obtain ⟨v, w, hv, hw, hcv, hcw, hrelated⟩ := exists_related ha hb hwa hwb h
      exact ⟨v, w, hv, hw, by rw [meets_of_isConcrete _ hcv hcw, hrelated]⟩

end Value

lemma Text.contains_empty (s : String) : contains "" s = true := by
  unfold contains
  cases s.toList with
  | nil => rfl
  | cons c cs => rfl

lemma Text.contains_self (s : String) : contains s s = true := by
  unfold contains
  cases hs : s.toList with
  | nil => rfl
  | cons c cs =>
    have hfront := (afterFront_eq_some_iff (c :: cs) (c :: cs) []).mpr (by simp)
    rw [containsChars, hfront]
    rfl

namespace Value

lemma exists_textContains {o b : Value} (hb : b.IsOperand) (h : textContains o b = true) :
    ∃ w, b.Admits isDefinite w ∧ textContains o w = true := by
  have hempty : textContains o (.text "") = true := by
    simp only [textContains, outcomes, List.any_cons, List.any_nil, Bool.or_false, display,
      isWildcard, Bool.false_or]
    exact Text.contains_empty _
  exact exists_outcome hb h rfl hempty

lemma exists_memberEqual {v b : Value} (hv : v.isDefinite = true) (hb : b.IsOperand)
    (h : couldEqual v b = true) : ∃ w, b.Admits isDefinite w ∧ couldEqual v w = true := by
  have hcv := isConcrete_of_isDefinite v hv
  cases hw : b.isWildcard with
  | true =>
    -- The wildcard is taken for the member itself, which equals itself as it holds no NaN.
    refine ⟨v, admits_of_isWildcard hw hv, ?_⟩
    rw [couldEqual, meets_of_isConcrete _ hcv hcv, agrees_self hv]
  | false =>
    rw [couldEqual, meets, hw, Bool.false_or, outcomes_of_isConcrete hcv] at h
    simp only [List.any_cons, List.any_nil, Bool.or_false, isWildcard_of_isConcrete hcv,
      Bool.false_or] at h
    obtain ⟨y, hy, hagrees⟩ := List.any_eq_true.mp h
    obtain ⟨hadmits, hchoice⟩ := admits_of_mem_outcomes hb hw hy
    have hcy := isConcrete_of_choice hchoice
    rw [isWildcard_of_isConcrete hcy, Bool.false_or] at hagrees
    exact ⟨y, hadmits, by rw [couldEqual, meets_of_isConcrete _ hcv hcy, hagrees]⟩

lemma exists_outcomeContains {o b : Value} (ho : o.isDefinite = true ∨ ∃ x, o = .number x)
    (hb : b.IsOperand) (h : outcomeContains b o = true) :
    ∃ w, b.Admits isDefinite w ∧ outcomeContains w o = true := by
  cases o with
  | list items =>
    obtain ⟨v, hv, hequal⟩ := List.any_eq_true.mp h
    have hitems : areDefinite items = true := by
      rcases ho with ho | ⟨x, hx⟩
      · rwa [isDefinite] at ho
      · cases hx
    obtain ⟨w, hw, hequal'⟩ := exists_memberEqual ((areDefinite_iff items).mp hitems v hv) hb hequal
    exact ⟨w, hw, List.any_eq_true.mpr ⟨v, hv, hequal'⟩⟩
  | text s => exact exists_textContains hb h
  | number x => exact exists_textContains hb h
  | bool p => cases h
  | object fields => cases h
  | wildcard origin =>
    obtain ⟨w, hw, _⟩ := exists_admits hb
    exact ⟨w, hw, rfl⟩
  | flexible options => cases isConcrete_of_choice ho

lemma exists_couldContain {a b : Value} (ha : a.IsOperand) (hb : b.IsOperand)
    (h : a.couldContain b = true) :
    ∃ v w, a.Admits isDefinite v ∧ b.Admits isDefinite w ∧ v.couldContain w = true := by
  cases hwa : a.isWildcard with
  | true =>
    -- The wildcard is taken for the text of any choice for the item.
    obtain ⟨w, hw, hcw⟩ := exists_admits hb
    refine ⟨.text w.display, w, admits_of_isWildcard hwa rfl, hw, ?_⟩
    simp only [couldContain, outcomes, List.any_cons, List.any_nil, Bool.or_false, outcomeContains,
      textContains, outcomes_of_isConcrete hcw, isWildcard_of_isConcrete hcw, Bool.false_or, display]
    exact Text.contains_self _
  | false =>
    obtain ⟨o, ho, hcontains⟩ := List.any_eq_true.mp h
    obtain ⟨hadmits, hchoice⟩ := admits_of_mem_outcomes ha hwa ho
    obtain ⟨w, hw, hcontains'⟩ := exists_outcomeContains hchoice hb hcontains
    refine ⟨o, w, hadmits, hw, ?_⟩
    rw [couldContain, outcomes_of_isConcrete (isConcrete_of_choice hchoice)]
    simpa using hcontains'

end Value

end WorkflowAudit
