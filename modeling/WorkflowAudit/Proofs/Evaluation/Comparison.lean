import WorkflowAudit.Evaluation.Value
import WorkflowAudit.Proofs.Text.LetterCase

/-! Laws of the comparison of values. As long as every list of options has one to offer, values meet
just when a pair of their outcomes does, and so it does not matter which side is opened first. -/

namespace WorkflowAudit

/-! ### Sameness is mutual -/

lemma Numeral.same_comm (m n : Numeral) : m.same n = n.same m := by
  cases m <;> cases n <;> simp [same, Binary64.equal_comm, eq_comm]

mutual

lemma Json.same_comm : (v w : Json) → v.same w = w.same v
  | .null, w => by cases w <;> simp [Json.same]
  | .bool b, w => by cases w <;> simp [Json.same, eq_comm]
  | .number n, w => by cases w <;> simp [Json.same, Numeral.same_comm]
  | .text s, w => by cases w <;> simp [Json.same, eq_comm]
  | .array items, w => by
    cases w with
    | array items' =>
      rw [Json.same, Json.same]
      exact Json.sameItems_comm items items'
    | _ => simp [Json.same]
  | .object fields, w => by
    cases w with
    | object fields' =>
      rw [Json.same, Json.same]
      exact Json.sameFields_comm fields fields'
    | _ => simp [Json.same]

lemma Json.sameItems_comm : (vs ws : List Json) → Json.sameItems vs ws = Json.sameItems ws vs
  | [], ws => by cases ws <;> simp [Json.sameItems]
  | v :: vs, [] => by simp [Json.sameItems]
  | v :: vs, w :: ws => by
    rw [Json.sameItems, Json.sameItems, Json.same_comm v w, Json.sameItems_comm vs ws]

lemma Json.sameFields_comm : (as bs : List (String × Json)) →
    Json.sameFields as bs = Json.sameFields bs as
  | [], bs => by cases bs <;> simp [Json.sameFields]
  | (k, v) :: as, [] => by simp [Json.sameFields]
  | (k, v) :: as, (l, w) :: bs => by
    rw [Json.sameFields, Json.sameFields, Json.same_comm v w, Json.sameFields_comm as bs,
      Bool.beq_comm]

end

namespace Value

mutual

lemma same_comm : (v w : Value) → v.same w = w.same v
  | .bool b, w => by cases w <;> simp [same, eq_comm]
  | .text s, w => by cases w <;> simp [same, eq_comm]
  | .number x, w => by cases w <;> simp [same, Binary64.equal_comm]
  | .object fields, w => by cases w <;> simp [same, Json.sameFields_comm]
  | .wildcard origin, w => by cases w <;> simp [same, eq_comm]
  | .list items, w => by
    cases w with
    | list items' =>
      rw [same, same]
      exact sameAll_comm items items'
    | _ => simp [same]
  | .flexible options, w => by
    cases w with
    | flexible options' =>
      rw [same, same]
      exact sameAll_comm options options'
    | _ => simp [same]

lemma sameAll_comm : (vs ws : List Value) → sameAll vs ws = sameAll ws vs
  | [], ws => by cases ws <;> simp [sameAll]
  | v :: vs, [] => by simp [sameAll]
  | v :: vs, w :: ws => by
    rw [sameAll, sameAll, same_comm v w, sameAll_comm vs ws]

end

lemma agrees_comm (x y : Value) : agrees x y = agrees y x := by
  cases x <;> cases y <;>
    simp [agrees, Binary64.equal_comm, Text.sameIgnoringCase_comm, sameAll_comm,
      Json.sameFields_comm, eq_comm]

/-! ### Values with something to offer -/

mutual

/-- No list of options is empty, at any depth of options. What stands within a list or an object is
not opened, and may hold any options. -/
def hasOptions : Value → Bool
  | .flexible options => !options.isEmpty && haveOptions options
  | _ => true

def haveOptions : List Value → Bool
  | [] => true
  | v :: rest => hasOptions v && haveOptions rest

end

variable {a b v : Value} {r : Value → Value → Bool}

mutual

lemma outcomes_ne_nil : (v : Value) → v.hasOptions = true → v.outcomes ≠ []
  | .bool _, _ | .text _, _ | .number _, _ | .list _, _ | .object _, _ | .wildcard _, _ => by
    simp [outcomes]
  | .flexible options, h => by
    rw [hasOptions, Bool.and_eq_true, Bool.not_eq_true', List.isEmpty_eq_false_iff] at h
    rw [outcomes]
    exact outcomesOfAll_ne_nil options h.1 h.2

lemma outcomesOfAll_ne_nil : (vs : List Value) → vs ≠ [] → haveOptions vs = true →
    outcomesOfAll vs ≠ []
  | [], hne, _ => absurd rfl hne
  | v :: rest, _, h => by
    rw [haveOptions, Bool.and_eq_true] at h
    rw [outcomesOfAll]
    exact List.append_ne_nil_of_left_ne_nil (outcomes_ne_nil v h.1) _

end

lemma exists_mem_outcomes (h : v.hasOptions = true) : ∃ x, x ∈ v.outcomes :=
  List.exists_mem_of_ne_nil _ (outcomes_ne_nil v h)

lemma mem_outcomes_of_isWildcard (h : v.isWildcard = true) : v ∈ v.outcomes := by
  cases v with
  | wildcard origin => simp [outcomes]
  | _ => cases h

/-! ### Meeting -/

/-- With options on both sides, two values meet just when a pair of outcomes is related or one of the
two is a wildcard. -/
lemma meets_iff (ha : a.hasOptions = true) (hb : b.hasOptions = true) :
    meets r a b = true ↔ ∃ x ∈ a.outcomes, ∃ y ∈ b.outcomes,
      x.isWildcard = true ∨ y.isWildcard = true ∨ r x y = true := by
  simp only [meets, Bool.or_eq_true, List.any_eq_true]
  constructor
  · rintro (hw | ⟨x, hx, hw | ⟨y, hy, h⟩⟩)
    · obtain ⟨x, hx⟩ := exists_mem_outcomes ha
      exact ⟨x, hx, b, mem_outcomes_of_isWildcard hw, .inr (.inl hw)⟩
    · obtain ⟨y, hy⟩ := exists_mem_outcomes hb
      exact ⟨x, hx, y, hy, .inl hw⟩
    · exact ⟨x, hx, y, hy, .inr h⟩
  · rintro ⟨x, hx, y, hy, hw | h⟩
    · exact .inr ⟨x, hx, .inl hw⟩
    · exact .inr ⟨x, hx, .inr ⟨y, hy, h⟩⟩

lemma meets_comm (hr : ∀ x y, r x y = r y x) (ha : a.hasOptions = true)
    (hb : b.hasOptions = true) : meets r a b = meets r b a := by
  rw [Bool.eq_iff_iff, meets_iff ha hb, meets_iff hb ha]
  constructor
  · rintro ⟨x, hx, y, hy, h⟩
    exact ⟨y, hy, x, hx, by rwa [hr y x, or_left_comm]⟩
  · rintro ⟨y, hy, x, hx, h⟩
    exact ⟨x, hx, y, hy, by rwa [hr x y, or_left_comm]⟩

lemma couldEqual_or_couldDiffer (ha : a.hasOptions = true) (hb : b.hasOptions = true) :
    a.couldEqual b = true ∨ a.couldDiffer b = true := by
  obtain ⟨x, hx⟩ := exists_mem_outcomes ha
  obtain ⟨y, hy⟩ := exists_mem_outcomes hb
  cases h : agrees x y with
  | true => exact .inl ((meets_iff ha hb).mpr ⟨x, hx, y, hy, .inr (.inr h)⟩)
  | false => exact .inr ((meets_iff ha hb).mpr ⟨x, hx, y, hy, .inr (.inr (by simp [h]))⟩)

lemma truthy_or_falsy (h : v.hasOptions = true) : v.truthy = true ∨ v.falsy = true := by
  obtain ⟨x, hx⟩ := exists_mem_outcomes h
  cases hholds : x.holds with
  | true => exact .inl (List.any_eq_true.mpr ⟨x, hx, hholds⟩)
  | false => exact .inr (List.any_eq_true.mpr ⟨x, hx, by simp [hholds]⟩)

/-- Of two values that have options, either may stand first in a comparison; they could be equal or
could differ, and each could be true or could be false. -/
theorem comparison_laws (ha : a.hasOptions = true) (hb : b.hasOptions = true) :
    a.couldEqual b = b.couldEqual a ∧ a.couldDiffer b = b.couldDiffer a ∧
      (a.couldEqual b = true ∨ a.couldDiffer b = true) ∧ (a.truthy = true ∨ a.falsy = true) := by
  have hdiffer (x y : Value) : (!agrees x y) = !agrees y x := by rw [agrees_comm]
  exact ⟨meets_comm agrees_comm ha hb, meets_comm hdiffer ha hb,
    couldEqual_or_couldDiffer ha hb, truthy_or_falsy ha⟩

/-- NaN, a context and a list with a context in it, at different depths of options. -/
def mixedOptions : Value :=
  .flexible [.flexible [.number .nan, .wildcard "github.actor"], .list [.wildcard "", .flexible []]]

def objectOrNaN : Value := .flexible [.object [("a", .null)], .number .nan]

theorem mixed_options_compared :
    mixedOptions.hasOptions = true ∧ objectOrNaN.hasOptions = true ∧
      mixedOptions.couldEqual objectOrNaN = objectOrNaN.couldEqual mixedOptions ∧
      mixedOptions.couldDiffer objectOrNaN = objectOrNaN.couldDiffer mixedOptions ∧
      (mixedOptions.couldEqual objectOrNaN = true ∨ mixedOptions.couldDiffer objectOrNaN = true) ∧
      (mixedOptions.truthy = true ∨ mixedOptions.falsy = true) := by
  have ha : mixedOptions.hasOptions = true := by decide
  have hb : objectOrNaN.hasOptions = true := by decide
  exact ⟨ha, hb, comparison_laws ha hb⟩

/-- Without options on one side, a wildcard among those of the other is found on the left only. -/
example : couldEqual (flexible [wildcard "github.actor"]) (flexible []) = true ∧
    couldEqual (flexible []) (flexible [wildcard "github.actor"]) = false := by
  decide

end Value

end WorkflowAudit
