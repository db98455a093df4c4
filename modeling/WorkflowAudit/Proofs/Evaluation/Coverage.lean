import WorkflowAudit.Proofs.Evaluation.Choice

/-! A value with choices in it covers the values that these may turn out to be. What holds of a
covered value could hold of the one that covers it, under every test of values that there is. -/

namespace WorkflowAudit

namespace Value

/-- `a` leaves open that the value is `c`, in which nothing is open. -/
def Covers (a c : Value) : Prop :=
  c.isConcrete = true ∧ (a.isWildcard = true ∨ c ∈ a.outcomes)

lemma outcomes_of_isConcrete {c : Value} (h : c.isConcrete = true) : c.outcomes = [c] := by
  cases c with
  | wildcard origin => simp [isConcrete] at h
  | flexible options => simp [isConcrete] at h
  | _ => simp [outcomes]

lemma isConcrete_of_isScalar {v : Value} (h : v.isScalar = true) : v.isConcrete = true := by
  cases v <;> first | rfl | cases h

lemma isWildcard_of_isConcrete {c : Value} (h : c.isConcrete = true) : c.isWildcard = false := by
  cases c with
  | wildcard origin => simp [isConcrete] at h
  | _ => rfl

lemma outcomes_of_isWildcard {a : Value} (h : a.isWildcard = true) : a.outcomes = [a] := by
  cases a with
  | wildcard origin => simp [outcomes]
  | _ => simp [isWildcard] at h

lemma holds_of_isWildcard {a : Value} (h : a.isWildcard = true) : a.holds = true := by
  cases a with
  | wildcard origin => rfl
  | _ => simp [isWildcard] at h

mutual

lemma isConcrete_of_isDefinite : (v : Value) → v.isDefinite = true → v.isConcrete = true
  | .bool _, _ | .text _, _ | .number _, _ | .object _, _ => by simp [isConcrete]
  | .wildcard _, h | .flexible _, h => by simp [isDefinite] at h
  | .list items, h => by
    rw [isConcrete]
    exact areConcrete_of_areDefinite items (by rwa [isDefinite] at h)

lemma areConcrete_of_areDefinite : (vs : List Value) → areDefinite vs = true → areConcrete vs = true
  | [], _ => by simp [areConcrete]
  | v :: rest, h => by
    rw [areDefinite, Bool.and_eq_true] at h
    rw [areConcrete, Bool.and_eq_true]
    exact ⟨isConcrete_of_isDefinite v h.1, areConcrete_of_areDefinite rest h.2⟩

end

lemma areConcrete_iff (vs : List Value) : areConcrete vs = true ↔ ∀ v ∈ vs, v.isConcrete = true := by
  induction vs with
  | nil => simp [areConcrete]
  | cons v rest ih => simp [areConcrete, ih]

lemma mem_outcomesOfAll {v o : Value} {vs : List Value} (hv : v ∈ vs) (ho : o ∈ v.outcomes) :
    o ∈ outcomesOfAll vs := by
  induction vs with
  | nil => cases hv
  | cons w rest ih =>
    rw [outcomesOfAll, List.mem_append]
    rcases List.mem_cons.mp hv with rfl | hv
    · exact .inl ho
    · exact .inr (ih hv)

lemma Covers.refl {c : Value} (h : c.isConcrete = true) : Covers c c :=
  ⟨h, .inr (by simp [outcomes_of_isConcrete h])⟩

lemma covers_of_admits {bound v : Value} (hb : bound.isBinding = true)
    (h : bound.Admits isConcrete v) : Covers bound v := by
  cases bound with
  | wildcard origin => exact ⟨h, .inl rfl⟩
  | flexible options =>
    have hall : options.all isDefinite = true := (Bool.and_eq_true _ _ ▸ hb).2
    have hv := isConcrete_of_isDefinite v (List.all_eq_true.mp hall v h)
    refine ⟨hv, .inr ?_⟩
    rw [outcomes]
    exact mem_outcomesOfAll h (by simp [outcomes_of_isConcrete hv])
  | _ =>
    cases h
    exact Covers.refl (isConcrete_of_isDefinite _ hb)

lemma truthy_of_covers {a c : Value} (h : Covers a c) (hc : c.truthy = true) :
    a.truthy = true := by
  obtain ⟨hconcrete, ha | hmem⟩ := h
  · simp [truthy, outcomes_of_isWildcard ha, holds_of_isWildcard ha]
  · rw [truthy, outcomes_of_isConcrete hconcrete] at hc
    exact List.any_eq_true.mpr ⟨c, hmem, by simpa using hc⟩

lemma falsy_of_covers {a c : Value} (h : Covers a c) (hc : c.falsy = true) : a.falsy = true := by
  obtain ⟨hconcrete, ha | hmem⟩ := h
  · simp [falsy, outcomes_of_isWildcard ha, ha]
  · rw [falsy, outcomes_of_isConcrete hconcrete] at hc
    exact List.any_eq_true.mpr ⟨c, hmem, by simpa using hc⟩

lemma meets_of_isConcrete (related : Value → Value → Bool) {c d : Value}
    (hc : c.isConcrete = true) (hd : d.isConcrete = true) : meets related c d = related c d := by
  simp [meets, outcomes_of_isConcrete hc, outcomes_of_isConcrete hd, isWildcard_of_isConcrete hc,
    isWildcard_of_isConcrete hd]

lemma meets_of_covers {related : Value → Value → Bool} {a b c d : Value} (ha : Covers a c)
    (hb : Covers b d) (h : meets related c d = true) : meets related a b = true := by
  obtain ⟨hc, ha | ha⟩ := ha
  · simp [meets, outcomes_of_isWildcard ha, ha]
  obtain ⟨hd, hb | hb⟩ := hb
  · simp [meets, hb]
  rw [meets_of_isConcrete related hc hd] at h
  rw [meets, Bool.or_eq_true]
  refine .inr (List.any_eq_true.mpr ⟨c, ha, ?_⟩)
  rw [Bool.or_eq_true]
  exact .inr (List.any_eq_true.mpr ⟨d, hb, by simp [h]⟩)

lemma textContains_of_covers {o b d : Value} (hb : Covers b d) (h : textContains o d = true) :
    textContains o b = true := by
  obtain ⟨hd, hb | hb⟩ := hb
  · simp [textContains, outcomes_of_isWildcard hb, hb]
  · rw [textContains, outcomes_of_isConcrete hd] at h
    exact List.any_eq_true.mpr ⟨d, hb, by simpa using h⟩

lemma outcomeContains_of_covers {o b d : Value} (ho : o.isConcrete = true) (hb : Covers b d)
    (h : outcomeContains d o = true) : outcomeContains b o = true := by
  cases o with
  | list items =>
    obtain ⟨v, hv, hvd⟩ := List.any_eq_true.mp h
    have hconcrete := (areConcrete_iff items).mp (by rwa [isConcrete] at ho) v hv
    exact List.any_eq_true.mpr ⟨v, hv, meets_of_covers (Covers.refl hconcrete) hb hvd⟩
  | text s => exact textContains_of_covers hb h
  | number x => exact textContains_of_covers hb h
  | bool p => cases h
  | object fields => cases h
  | wildcard origin => rfl
  | flexible options => simp [isConcrete] at ho

lemma couldContain_of_covers {a b c d : Value} (ha : Covers a c) (hb : Covers b d)
    (h : c.couldContain d = true) : a.couldContain b = true := by
  obtain ⟨hc, ha | ha⟩ := ha
  · cases a with
    | wildcard origin => simp [couldContain, outcomes, outcomeContains]
    | _ => simp [isWildcard] at ha
  · rw [couldContain, outcomes_of_isConcrete hc] at h
    have hcd : outcomeContains d c = true := by simpa using h
    exact List.any_eq_true.mpr ⟨c, ha, outcomeContains_of_covers hc hb hcd⟩

end Value

/-! ### Choices for a part of an expression -/

lemma Expression.mem_contextsOfAll {name : String} {a : Expression} {args : List Expression}
    (ha : a ∈ args) (hn : name ∈ a.contexts) : name ∈ contextsOfAll args := by
  induction args with
  | nil => cases ha
  | cons e rest ih =>
    rw [contextsOfAll, List.mem_append]
    rcases List.mem_cons.mp ha with rfl | ha
    · exact .inl hn
    · exact .inr (ih ha)

namespace Environment

lemma Realizes.mono {free : Value → Bool} {env chosen : Environment} {e e' : Expression}
    (h : env.Realizes free chosen e) (hsub : ∀ name ∈ e'.contexts, name ∈ e.contexts) :
    env.Realizes free chosen e' :=
  fun name hn hg => h name (hsub name hn) hg

lemma Realizes.negated {free : Value → Bool} {env chosen : Environment} {e : Expression}
    (h : env.Realizes free chosen (.not e)) : env.Realizes free chosen e :=
  h.mono fun _ hn => by rwa [Expression.contexts]

lemma Realizes.left {free : Value → Bool} {env chosen : Environment} {op : BinaryOp}
    {l r : Expression} (h : env.Realizes free chosen (.binary op l r)) :
    env.Realizes free chosen l :=
  h.mono fun _ hn => by
    rw [Expression.contexts]
    exact List.mem_append_left _ hn

lemma Realizes.right {free : Value → Bool} {env chosen : Environment} {op : BinaryOp}
    {l r : Expression} (h : env.Realizes free chosen (.binary op l r)) :
    env.Realizes free chosen r :=
  h.mono fun _ hn => by
    rw [Expression.contexts]
    exact List.mem_append_right _ hn

lemma Realizes.argument {free : Value → Bool} {env chosen : Environment} {f : String}
    {args : List Expression} (h : env.Realizes free chosen (.call f args)) {a : Expression}
    (ha : a ∈ args) : env.Realizes free chosen a :=
  h.mono fun _ hn => by
    rw [Expression.contexts]
    exact Expression.mem_contextsOfAll ha hn

end Environment

namespace Evaluation

lemma covers_of_realizes {env chosen : Environment} (hb : env.IsWellBound) {e : Expression}
    (he : e.IsTerm) (h : env.Realizes Value.isConcrete chosen e) :
    ∃ a c, evaluate env e = .ok a ∧ evaluate chosen e = .ok c ∧ a.Covers c := by
  rcases literal_or_context he with ⟨v, hscalar, _, hv⟩ | ⟨s, rfl, hs, hcontexts⟩
  · exact ⟨v, v, hv env, hv chosen, Value.Covers.refl (Value.isConcrete_of_isScalar hscalar)⟩
  · obtain ⟨v, hv, hallows⟩ := h s (by simp [hcontexts]) hs
    refine ⟨_, v, evaluate_context hs env, ?_, ?_⟩
    · rw [evaluate_context hs, hv, Option.getD_some]
    · exact Value.covers_of_admits (hb.isBinding s) (Environment.allows_iff.mp hallows)

end Evaluation

end WorkflowAudit
