import Mathlib.Data.List.DropRight
import WorkflowAudit.Text.Basic

/-! Cuts of a text: at the first or the last of some character, at all of them, and at both ends,
where blanks are cut off. -/

namespace WorkflowAudit.Text

variable {sep : Char} {cs before after : List Char}

/-! ### Cuts at a character -/

lemma cutFirstChars_eq_some_iff :
    cutFirstChars sep cs = some (before, after) ↔ cs = before ++ sep :: after ∧ sep ∉ before := by
  induction cs generalizing before with
  | nil => simp [cutFirstChars]
  | cons c cs ih =>
    rw [cutFirstChars]
    by_cases hc : c = sep
    · subst hc
      rw [if_pos rfl]
      constructor
      · rintro ⟨⟩
        exact ⟨rfl, List.not_mem_nil⟩
      · rintro ⟨hcut, hbefore⟩
        cases before with
        | nil =>
          cases hcut
          rfl
        | cons d before =>
          obtain ⟨rfl, -⟩ := List.cons.inj hcut
          exact absurd List.mem_cons_self hbefore
    · rw [if_neg hc, Option.map_eq_some_iff]
      constructor
      · rintro ⟨⟨front, rest⟩, hcut, ⟨⟩⟩
        obtain ⟨rfl, hfront⟩ := ih.mp hcut
        exact ⟨rfl, by simpa [Ne.symm hc] using hfront⟩
      · rintro ⟨hcut, hbefore⟩
        cases before with
        | nil => exact absurd (List.cons.inj hcut).1 hc
        | cons d before =>
          obtain ⟨rfl, hrest⟩ := List.cons.inj hcut
          exact ⟨(before, after), ih.mpr ⟨hrest, fun h => hbefore (List.mem_cons_of_mem _ h)⟩, rfl⟩

lemma cutFirstChars_eq_none_iff : cutFirstChars sep cs = none ↔ sep ∉ cs := by
  induction cs with
  | nil => simp [cutFirstChars]
  | cons c cs ih =>
    rw [cutFirstChars]
    by_cases hc : c = sep
    · simp [hc]
    · simp [hc, ih, Ne.symm hc]

lemma cutLastChars_eq_some_iff :
    cutLastChars sep cs = some (before, after) ↔ cs = before ++ sep :: after ∧ sep ∉ after := by
  rw [cutLastChars, Option.map_eq_some_iff]
  constructor
  · rintro ⟨⟨back, front⟩, hcut, ⟨⟩⟩
    obtain ⟨hcs, hback⟩ := cutFirstChars_eq_some_iff.mp hcut
    refine ⟨?_, by simpa using hback⟩
    simpa using congrArg List.reverse hcs
  · rintro ⟨rfl, hafter⟩
    refine ⟨(after.reverse, before.reverse), cutFirstChars_eq_some_iff.mpr ⟨?_, ?_⟩, by simp⟩
    · simp
    · simpa using hafter

lemma cutLastChars_eq_none_iff : cutLastChars sep cs = none ↔ sep ∉ cs := by
  rw [cutLastChars, Option.map_eq_none_iff, cutFirstChars_eq_none_iff, List.mem_reverse]

lemma splitChars_of_notMem (h : sep ∉ cs) : splitChars sep cs = [cs] := by
  induction cs with
  | nil => rfl
  | cons c cs ih =>
    obtain ⟨hc, hcs⟩ := not_or.mp (mt List.mem_cons.mpr h)
    rw [splitChars, if_neg (Ne.symm hc), ih hcs]

lemma splitChars_append_cons (h : sep ∉ before) :
    splitChars sep (before ++ sep :: after) = before :: splitChars sep after := by
  induction before with
  | nil => rw [List.nil_append, splitChars, if_pos rfl]
  | cons c before ih =>
    obtain ⟨hc, hbefore⟩ := not_or.mp (mt List.mem_cons.mpr h)
    rw [List.cons_append, splitChars, if_neg (Ne.symm hc), ih hbefore]

/-! ### Cuts at both ends -/

variable {p : Char → Bool} {mid front back : List Char}

/-- The text from its first to its last character outside a class. -/
def between (p : Char → Bool) (cs : List Char) : List Char := (cs.dropWhile p).rdropWhile p

lemma trimChars_eq_between (cs : List Char) : trimChars cs = between isBlank cs := rfl

/-- The ends of a text stand outside a class. -/
structure EndsOutside (p : Char → Bool) (mid : List Char) : Prop where
  first : ∀ c ∈ mid.head?, p c = false
  last : ∀ c ∈ mid.getLast?, p c = false

lemma rdropWhile_append_cons {c : Char} (hc : p c = false) (front rest : List Char) :
    (front ++ c :: rest).rdropWhile p = front ++ c :: rest.rdropWhile p := by
  induction rest using List.reverseRecOn with
  | nil => rw [List.rdropWhile_concat_neg _ _ _ (by simp [hc]), List.rdropWhile_nil]
  | append_singleton rest d ih =>
    rw [← List.cons_append, ← List.append_assoc, List.rdropWhile_concat, List.rdropWhile_concat, ih]
    split <;> simp

lemma endsOutside_between (p : Char → Bool) (cs : List Char) : EndsOutside p (between p cs) := by
  constructor
  · intro c hc
    obtain ⟨back, hback⟩ := List.rdropWhile_prefix p (cs.dropWhile p)
    have hhead : c ∈ (cs.dropWhile p).head? := by
      obtain ⟨rest, hrest⟩ := List.head?_eq_some_iff.mp hc
      rw [← hback, show (cs.dropWhile p).rdropWhile p = c :: rest from hrest]
      rfl
    have hnot := List.head?_dropWhile_not p cs
    rw [hhead] at hnot
    simpa using hnot
  · intro c hc
    obtain ⟨hne, hlast⟩ := List.mem_getLast?_eq_getLast hc
    rw [hlast, ← Bool.not_eq_true]
    exact List.rdropWhile_last_not p (cs.dropWhile p) hne

lemma exists_between (p : Char → Bool) (cs : List Char) :
    ∃ front back, cs = front ++ (between p cs ++ back) ∧ (∀ c ∈ front, p c = true) ∧
      ∀ c ∈ back, p c = true := by
  refine ⟨cs.takeWhile p, (cs.dropWhile p).rtakeWhile p, ?_, ?_, ?_⟩
  · rw [between, List.rdropWhile_append_rtakeWhile, List.takeWhile_append_dropWhile]
  · exact fun c hc => List.mem_takeWhile_imp hc
  · exact fun c hc => List.mem_rtakeWhile_imp hc

lemma between_eq (h : EndsOutside p mid) (hfront : ∀ c ∈ front, p c = true)
    (hback : ∀ c ∈ back, p c = true) : between p (front ++ (mid ++ back)) = mid := by
  rw [between, List.dropWhile_append_of_pos hfront]
  cases mid with
  | nil => rw [List.nil_append, List.dropWhile_eq_nil_iff.mpr hback, List.rdropWhile_nil]
  | cons c mid =>
    have hself : (c :: mid).rdropWhile p = c :: mid := by
      rw [List.rdropWhile_eq_self_iff]
      intro hne
      rw [Bool.not_eq_true]
      exact h.last _ (List.getLast?_eq_some_getLast hne)
    rw [List.cons_append, List.dropWhile_cons_of_neg (by simp [h.first c rfl]), ← List.cons_append,
      List.rdropWhile, List.reverse_append, List.dropWhile_append_of_pos (by simpa using hback)]
    exact hself

lemma between_self (h : EndsOutside p mid) : between p mid = mid := by
  have heq : between p ([] ++ (mid ++ [])) = mid := between_eq h (by simp) (by simp)
  rwa [List.nil_append, List.append_nil] at heq

/-! ### Blanks -/

def blankCodes : List Nat :=
  List.range' 9 5 ++ [0x20, 0x85, 0xA0, 0x1680] ++ List.range' 0x2000 11 ++
    [0x2028, 0x2029, 0x202F, 0x205F, 0x3000]

lemma isBlank_iff {c : Char} : isBlank c = true ↔ c.toNat ∈ blankCodes := by
  simp only [isBlank, blankCodes, Bool.or_eq_true, Bool.and_eq_true, decide_eq_true_eq,
    List.mem_append, List.mem_cons, List.mem_range'_1, List.not_mem_nil, or_false]
  omega

/-- That a class holds no blank is told from the few blanks one by one. -/
lemma eq_false_of_isBlank {c : Char} (hp : ∀ n ∈ blankCodes, p (Char.ofNat n) = false)
    (h : isBlank c = true) : p c = false := by
  rw [← Char.ofNat_toNat c]
  exact hp _ (isBlank_iff.mp h)

lemma trim_trim (s : String) : trim (trim s) = trim s := by
  rw [trim, trim, String.toList_ofList, trimChars_eq_between, trimChars_eq_between,
    between_self (endsOutside_between isBlank s.toList)]

end WorkflowAudit.Text
