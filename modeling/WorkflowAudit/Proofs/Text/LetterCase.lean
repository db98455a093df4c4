import Mathlib.Data.List.Forall2
import WorkflowAudit.Text.Basic

/-! Texts that are the same but for the case of ASCII letters: they fold to one text, and a sign that
is not a letter cuts them at the same places. -/

namespace WorkflowAudit.Text

variable {a b c : String} {sep : Char}

lemma fold_ofList (cs : List Char) :
    fold (String.ofList cs) = String.ofList (cs.map Char.toLower) := by
  simp [fold]

lemma sameIgnoringCase_iff :
    sameIgnoringCase a b = true ↔ a.toList.map Char.toLower = b.toList.map Char.toLower := by
  rw [sameIgnoringCase, beq_iff_eq]

lemma fold_eq_iff : fold a = fold b ↔ sameIgnoringCase a b = true := by
  rw [fold, fold, String.ofList_inj, sameIgnoringCase_iff]

lemma sameIgnoringCase_self (s : String) : sameIgnoringCase s s = true := by
  rw [sameIgnoringCase_iff]

lemma sameIgnoringCase_comm (a b : String) : sameIgnoringCase a b = sameIgnoringCase b a := by
  rw [Bool.eq_iff_iff, sameIgnoringCase_iff, sameIgnoringCase_iff, eq_comm]

lemma sameIgnoringCase_congr_left (h : sameIgnoringCase a b = true) :
    sameIgnoringCase a c = sameIgnoringCase b c := by
  rw [sameIgnoringCase, sameIgnoringCase, sameIgnoringCase_iff.mp h]

lemma sameIgnoringCase_congr_right (h : sameIgnoringCase a b = true) :
    sameIgnoringCase c a = sameIgnoringCase c b := by
  rw [sameIgnoringCase, sameIgnoringCase, sameIgnoringCase_iff.mp h]

lemma length_eq_of_sameIgnoringCase (h : sameIgnoringCase a b = true) :
    a.toList.length = b.toList.length := by
  simpa using congrArg List.length (sameIgnoringCase_iff.mp h)

/-! ### Cutting at a sign that is not a letter -/

lemma isUpper_of_toLower_ne {d : Char} (h : d.toLower ≠ d) :
    d.isUpper = true ∧ d.toLower.isLower = true := by
  have hupper : d.val ≥ 'A'.val ∧ d.val ≤ 'Z'.val := by
    by_contra hnot
    exact h (dif_neg hnot)
  have hval : d.toLower.val = d.val + ('a'.val - 'A'.val) := congrArg Char.val (dif_pos hupper)
  have hlower : d.toLower.val ≥ 'a'.val ∧ d.toLower.val ≤ 'z'.val := by
    rw [hval]
    simp only [ge_iff_le, UInt32.le_iff_toNat_le, UInt32.toNat_add] at *
    simp at *
    omega
  refine ⟨decide_eq_true hupper, ?_⟩
  exact Bool.and_eq_true_iff.mpr ⟨decide_eq_true hlower.1, decide_eq_true hlower.2⟩

lemma isAlpha_iff {d : Char} : d.isAlpha = true ↔ d.isUpper = true ∨ d.isLower = true :=
  Bool.or_eq_true_iff

lemma toLower_eq_iff {d : Char} (hsep : sep.isAlpha = false) : d.toLower = sep ↔ d = sep := by
  by_cases hd : d.toLower = d
  · rw [hd]
  · obtain ⟨hupper, hlower⟩ := isUpper_of_toLower_ne hd
    constructor
    · rintro rfl
      exact absurd (hsep.symm.trans (isAlpha_iff.mpr (.inr hlower))) Bool.false_ne_true
    · rintro rfl
      exact absurd (hsep.symm.trans (isAlpha_iff.mpr (.inl hupper))) Bool.false_ne_true

lemma splitChars_map_toLower (hsep : sep.isAlpha = false) (cs : List Char) :
    splitChars sep (cs.map Char.toLower) = (splitChars sep cs).map (·.map Char.toLower) := by
  induction cs with
  | nil => rfl
  | cons d cs ih =>
    rw [List.map_cons, splitChars, splitChars]
    by_cases hd : d = sep
    · rw [if_pos hd, if_pos ((toLower_eq_iff hsep).mpr hd), ih]
      rfl
    · rw [if_neg hd, if_neg (mt (toLower_eq_iff hsep).mp hd), ih]
      cases splitChars sep cs with
      | nil => rfl
      | cons part parts => rfl

lemma forall₂_splitChars (hsep : sep.isAlpha = false) (h : sameIgnoringCase a b = true) :
    List.Forall₂ (fun p q => p.map Char.toLower = q.map Char.toLower)
      (splitChars sep a.toList) (splitChars sep b.toList) := by
  have hmap := congrArg (splitChars sep) (sameIgnoringCase_iff.mp h)
  rw [splitChars_map_toLower hsep, splitChars_map_toLower hsep] at hmap
  have hsame := (congrFun₂ List.forall₂_eq_eq_eq _ _).mpr hmap
  rwa [List.forall₂_map_left_iff, List.forall₂_map_right_iff] at hsame

lemma forall₂_split (hsep : sep.isAlpha = false) (h : sameIgnoringCase a b = true) :
    List.Forall₂ (fun p q => sameIgnoringCase p q = true) (split sep a) (split sep b) := by
  rw [split, split, List.forall₂_map_left_iff, List.forall₂_map_right_iff]
  refine (forall₂_splitChars hsep h).imp fun p q hpq => ?_
  rw [sameIgnoringCase_iff, String.toList_ofList, String.toList_ofList]
  exact hpq

end WorkflowAudit.Text
