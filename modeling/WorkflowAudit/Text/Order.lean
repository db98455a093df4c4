/-!
Lists of texts in strictly ascending order of their characters.
-/

namespace WorkflowAudit.Text

/-- Puts a text in its place, unless it is there already. -/
def insertAscending (s : String) : List String → List String
  | [] => [s]
  | t :: rest =>
    if s = t then t :: rest else if s < t then s :: t :: rest else t :: insertAscending s rest

/-- The texts of a list in ascending order, each once. -/
def ascending (ss : List String) : List String := ss.foldr insertAscending []

theorem mem_insertAscending (a s : String) (ss : List String) :
    a ∈ insertAscending s ss ↔ a = s ∨ a ∈ ss := by
  induction ss with
  | nil => simp [insertAscending]
  | cons t rest ih =>
    by_cases hst : s = t
    · simp [insertAscending, hst]
    · by_cases hlt : s < t
      · simp [insertAscending, hst, hlt]
      · simp only [insertAscending, hst, hlt, if_false, List.mem_cons, ih]
        exact or_left_comm

theorem mem_ascending (a : String) (ss : List String) : a ∈ ascending ss ↔ a ∈ ss := by
  induction ss with
  | nil => simp [ascending]
  | cons s rest ih => simpa [ascending, mem_insertAscending] using or_congr_right ih

end WorkflowAudit.Text
