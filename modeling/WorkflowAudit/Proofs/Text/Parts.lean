import Mathlib.Data.List.Infix
import WorkflowAudit.Text.Basic

/-! The tests for parts of a text, by prefix, suffix and infix of its characters. -/

namespace WorkflowAudit.Text

variable {part s : String}

lemma startsWith_iff : startsWith part s = true ↔ part.toList <+: s.toList := by
  simp only [startsWith, Option.isSome_iff_exists, afterFront_eq_some_iff]
  exact exists_congr fun _ => eq_comm

lemma endsWith_iff : endsWith part s = true ↔ part.toList <:+ s.toList := by
  simp only [endsWith, Option.isSome_iff_exists, beforeBack_eq_some_iff]
  exact exists_congr fun _ => eq_comm

lemma containsChars_iff {part cs : List Char} : containsChars part cs = true ↔ part <:+: cs := by
  induction cs with
  | nil => rw [containsChars, List.isEmpty_iff, List.infix_nil]
  | cons c cs ih =>
    rw [containsChars, Bool.or_eq_true, ih, List.infix_cons_iff, Option.isSome_iff_exists]
    simp only [afterFront_eq_some_iff]
    exact or_congr_left (exists_congr fun _ => eq_comm)

lemma contains_iff : contains part s = true ↔ part.toList <:+: s.toList := containsChars_iff

lemma dropFront_eq_some_iff {front rest : String} :
    dropFront front s = some rest ↔ s = front ++ rest := by
  rw [dropFront, Option.map_eq_some_iff]
  simp only [afterFront_eq_some_iff]
  constructor
  · rintro ⟨cs, hcs, rfl⟩
    rw [← String.toList_inj, String.toList_append, String.toList_ofList, hcs]
  · rintro rfl
    exact ⟨rest.toList, String.toList_append, String.ofList_toList⟩

end WorkflowAudit.Text
