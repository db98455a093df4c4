import WorkflowAudit.Proofs.Expression.Reading

/-! What all trees that can be read have in common: their words have spellings. A spelling of a number
has no sign, and rounding it keeps one zero only, so spelled numbers that compare equal are one. -/

namespace WorkflowAudit

/-! ### One zero -/

namespace Binary64

variable {num den : Nat} {e : Int}

/-- At an exponent this far below the quotient, the quotient has at least one unit. -/
lemma snd_scaled_le (hnum : num ≠ 0) (he : e < num.log2 - den.log2) :
    (scaled num den e).2 ≤ (scaled num den e).1 := by
  have hlow : 2 ^ num.log2 ≤ num := Nat.log2_self_le hnum
  have hhigh : den < 2 ^ (den.log2 + 1) := Nat.lt_log2_self
  rw [scaled]
  split
  · next hpos =>
    obtain ⟨k, rfl⟩ := Int.eq_ofNat_of_zero_le hpos
    have hexp : den.log2 + 1 + k ≤ num.log2 := by omega
    calc den * 2 ^ k ≤ 2 ^ (den.log2 + 1) * 2 ^ k := Nat.mul_le_mul_right _ hhigh.le
      _ = 2 ^ (den.log2 + 1 + k) := (Nat.pow_add ..).symm
      _ ≤ 2 ^ num.log2 := Nat.pow_le_pow_right (by decide) hexp
      _ ≤ num := hlow
  · next hneg =>
    obtain ⟨k, rfl⟩ : ∃ k : Nat, e = -k := ⟨(-e).toNat, by omega⟩
    have hexp : den.log2 + 1 ≤ num.log2 + k := by omega
    rw [Int.neg_neg, Int.toNat_natCast]
    calc den ≤ 2 ^ (den.log2 + 1) := hhigh.le
      _ ≤ 2 ^ (num.log2 + k) := Nat.pow_le_pow_right (by decide) hexp
      _ = 2 ^ num.log2 * 2 ^ k := Nat.pow_add ..
      _ ≤ num * 2 ^ k := Nat.mul_le_mul_right _ hlow

lemma exponentOf_lt_or_eq (num den : Nat) :
    exponentOf num den < num.log2 - den.log2 ∨ exponentOf num den = minExponent := by
  simp only [exponentOf]
  split <;> omega

lemma div_le_roundQuotient (num den : Nat) : num / den ≤ roundQuotient num den := by
  simp only [roundQuotient]
  split <;> omega

lemma scaled_pos (hden : 0 < den) : 0 < (scaled num den e).2 := by
  rw [scaled]
  split
  · exact Nat.mul_pos hden (Nat.pow_pos (by decide))
  · exact hden

lemma exponentOf_eq_of_roundQuotient_eq_zero (hnum : num ≠ 0) (hden : 0 < den)
    (h : roundQuotient (scaled num den (exponentOf num den)).1
      (scaled num den (exponentOf num den)).2 = 0) : exponentOf num den = minExponent := by
  refine (exponentOf_lt_or_eq num den).resolve_left fun hlt => ?_
  have hunit := Nat.div_pos (snd_scaled_le hnum hlt) (scaled_pos hden)
  exact absurd (hunit.trans_le (div_le_roundQuotient ..)) (by rw [h]; exact lt_irrefl 0)

lemma ofRatio_eq_zero (negative : Bool) (hden : 0 < den)
    (h : (ofRatio negative num den).isZero = true) : ofRatio negative num den = zero negative := by
  by_cases hnum : num = 0
  · rw [ofRatio, if_pos hnum]
  have hleast := exponentOf_eq_of_roundQuotient_eq_zero hnum hden
  rw [ofRatio, if_neg hnum] at h ⊢
  dsimp only at h ⊢
  generalize exponentOf num den = e at h hleast ⊢
  generalize roundQuotient (scaled num den e).1 (scaled num den e).2 = m at h hleast ⊢
  by_cases hm : m = 0
  · rw [hleast hm, hm]
    rfl
  · split_ifs at h
    all_goals simp [isZero, hm] at h

lemma ofDecimal_eq_zero (negative : Bool) (digits : Nat) (exponent : Int)
    (h : (ofDecimal negative digits exponent).isZero = true) :
    ofDecimal negative digits exponent = zero negative := by
  rw [ofDecimal] at h ⊢
  split_ifs at h ⊢ with hdigits hlarge hsmall hwhole
  · rfl
  · cases h
  · rfl
  · exact ofRatio_eq_zero negative Nat.one_pos h
  · exact ofRatio_eq_zero negative (Nat.pow_pos (by decide)) h

lemma eq_of_equal_ofDecimal {digits digits' : Nat} {exponent exponent' : Int}
    (h : (ofDecimal false digits exponent).equal (ofDecimal false digits' exponent') = true) :
    ofDecimal false digits exponent = ofDecimal false digits' exponent' := by
  rw [equal, Bool.and_eq_true, Bool.or_eq_true, Bool.and_eq_true, decide_eq_true_eq] at h
  obtain heq | ⟨hzero, hzero'⟩ := h.2
  · exact heq
  · rw [ofDecimal_eq_zero _ _ _ hzero, ofDecimal_eq_zero _ _ _ hzero']

end Binary64

/-! ### The words of a tree that is read -/

namespace Expression

variable {x y : Binary64} {e : Expression} {ts : List Token} {cs : List Char}

lemma eq_of_hasSpelling (hx : (Token.number x).HasSpelling) (hy : (Token.number y).HasSpelling)
    (h : x.equal y = true) : x = y := by
  obtain ⟨w, hw⟩ := hx
  obtain ⟨w', hw'⟩ := hy
  cases hw <;> cases hw' <;> exact Binary64.eq_of_equal_ofDecimal h

lemma Layout.hasSpelling (h : Layout ts cs) : ∀ t ∈ ts, t.HasSpelling := by
  induction h with
  | blank hbs => intro t ht; cases ht
  | word hbs hw _ ih =>
    rintro t (_ | ⟨_, ht⟩)
    · exact ⟨_, hw⟩
    · exact ih t ht

lemma areSpellable_iff (es : List Expression) : AreSpellable es ↔ ∀ e ∈ es, e.IsSpellable := by
  induction es with
  | nil => simp [AreSpellable]
  | cons e es ih => rw [AreSpellable, ih, List.forall_mem_cons]

lemma mem_commaSeparated {parts : List (List Token)} {part : List Token} (h : part ∈ parts) :
    ∀ t ∈ part, t ∈ commaSeparated parts := by
  intro t ht
  induction parts with
  | nil => cases h
  | cons first rest ih =>
    cases rest with
    | nil =>
      obtain rfl : part = first := List.mem_singleton.mp h
      exact ht
    | cons second rest =>
      rw [commaSeparated_cons _ (List.cons_ne_nil _ _), List.mem_append, List.mem_cons]
      obtain rfl | hrest := List.mem_cons.mp h
      · exact .inl ht
      · exact .inr (.inr (ih hrest))

lemma Phrase.isSpellable {level : Level} (h : Phrase level ts e) (hts : ∀ t ∈ ts, t.HasSpelling) :
    e.IsSpellable := by
  induction h with
  | or _ _ iha ihb | and _ _ iha ihb | equal _ _ iha ihb | notEqual _ _ iha ihb =>
    rw [List.forall_mem_append, List.forall_mem_cons] at hts
    exact ⟨iha hts.1, ihb hts.2.2⟩
  | conjunction _ ih | comparison _ ih | operand _ ih => exact ih hts
  | not _ ih => exact ih (List.forall_mem_cons.mp hts).2
  | group _ ih =>
    rw [List.forall_mem_cons, List.forall_mem_append] at hts
    exact ih hts.2.1
  | text s => trivial
  | number x | name s => exact hts _ List.mem_cons_self
  | call f args _ ih =>
    rw [List.forall_mem_cons, List.forall_mem_append] at hts
    refine ⟨hts.1, (areSpellable_iff _).mpr ?_⟩
    rintro _ hmem
    obtain ⟨a, ha, rfl⟩ := List.mem_map.mp hmem
    exact ih a ha fun t ht =>
      hts.2.1 t (mem_commaSeparated (List.mem_map_of_mem ha) t ht)

lemma isSpellable_of_parse? {s : String} (h : parse? s = some e) : e.IsSpellable := by
  obtain ⟨body, ts, _, hlayout, hphrase⟩ := (parse?_eq_some_iff s e).mp h
  exact hphrase.isSpellable hlayout.hasSpelling

end Expression

end WorkflowAudit
