/-!
Lists of names with values. A name keeps the place where it was first put in, and has the value that
was put in last.
-/

namespace WorkflowAudit

abbrev Assoc (α : Type) := List (String × α)

namespace Assoc

variable {α : Type}

def get? (key : String) (m : Assoc α) : Option α := (m.find? (·.1 = key)).map (·.2)

def insert (key : String) (value : α) : Assoc α → Assoc α
  | [] => [(key, value)]
  | (k, v) :: rest => if k = key then (k, value) :: rest else (k, v) :: insert key value rest

def ofList (entries : List (String × α)) : Assoc α :=
  entries.foldl (fun m e => insert e.1 e.2 m) []

def contains (key : String) (m : Assoc α) : Bool := m.any (·.1 = key)

theorem get?_insert (key k : String) (value : α) (m : Assoc α) :
    get? k (insert key value m) = if k = key then some value else get? k m := by
  induction m with
  | nil => by_cases h : key = k <;> simp [get?, insert, h, eq_comm]
  | cons e rest ih =>
    obtain ⟨l, v⟩ := e
    by_cases hl : l = key
    · subst hl
      by_cases h : l = k
      · simp [get?, insert, h]
      · simp [get?, insert, h, Ne.symm h]
    · by_cases h : l = k
      · subst h
        simp [get?, insert, hl]
      · have ih' : get? k (insert key value rest) = _ := ih
        simp only [insert, hl, if_false]
        simpa [get?, h] using ih'

end Assoc

end WorkflowAudit
