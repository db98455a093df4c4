import Mathlib.Logic.Function.Iterate
import WorkflowAudit.Proofs.Evaluation.Coverage
import WorkflowAudit.Proofs.Text.Parts

/-! Values with one login in the place of another. A login is text that nobody can expect, so that
whatever has no part of it in common with the login meets either in the same way. -/

namespace WorkflowAudit

/-! ### Logins and their parts -/

namespace Login

def isDigit (c : Char) : Bool := "0123456789abcdef".toList.contains c

/-- Sixteen hexadecimal digits. -/
def IsLogin (l : String) : Prop := l.toList.length = 16 ∧ ∀ c ∈ l.toList, isDigit c = true

/-- What logins may have in common: at least one hexadecimal digit, but not all sixteen. -/
def IsPart (s : String) : Prop :=
  s.toList ≠ [] ∧ s.toList.length < 16 ∧ ∀ c ∈ s.toList, isDigit c = true

instance (l : String) : Decidable (IsLogin l) :=
  decidable_of_iff (l.toList.length = 16 ∧ l.toList.all isDigit = true)
    (and_congr_right' List.all_eq_true)

instance (s : String) : Decidable (IsPart s) :=
  decidable_of_iff (s.toList ≠ [] ∧ s.toList.length < 16 ∧ s.toList.all isDigit = true)
    (and_congr_right' (and_congr_right' List.all_eq_true))

variable {l s : String} {c : Char}

lemma lowerForm_digit (h : isDigit c.toLower = true) :
    c.toNat ≠ 0x3A3 ∧ Text.lowerForm c = [c.toLower] := by
  have hascii : "0123456789abcdef".toList.all (·.toNat < 128) = true := by decide
  have hlt : c.toNat < 128 := by
    by_cases hupper : c.val ≥ 'A'.val ∧ c.val ≤ 'Z'.val
    · have hle : c.toNat ≤ 90 := hupper.2
      omega
    · have hsame : c.toLower = c := dif_neg hupper
      rw [hsame] at h
      exact of_decide_eq_true (List.all_eq_true.mp hascii c (List.contains_iff_mem.mp h))
  exact ⟨by omega, if_pos hlt⟩

lemma lowercaseAfter_digits {cs : List Char} (h : ∀ c ∈ cs, isDigit c.toLower = true)
    (before : List Char) : Text.lowercaseAfter before cs = cs.map Char.toLower := by
  induction cs generalizing before with
  | nil => rfl
  | cons c cs ih =>
    obtain ⟨hsigma, hform⟩ := lowerForm_digit (h c List.mem_cons_self)
    rw [Text.lowercaseAfter, if_neg hsigma, hform, ih fun d hd => h d (List.mem_cons_of_mem _ hd)]
    rfl

/-- Whatever is a login but for the case of its letters is the login in lower case. -/
lemma lowercase_of_sameIgnoringCase (hl : IsLogin l) (h : Text.sameIgnoringCase l s = true) :
    Text.lowercase s = l := by
  have hlower : ∀ c, isDigit c = true → c.toLower = c := by
    have hall : "0123456789abcdef".toList.all (fun d => d.toLower == d) = true := by decide
    exact fun c hc => beq_iff_eq.mp (List.all_eq_true.mp hall c (List.contains_iff_mem.mp hc))
  have hfolded : s.toList.map Char.toLower = l.toList := by
    rw [← beq_iff_eq.mp h]
    exact (List.map_congr_left fun c hc => hlower c (hl.2 c hc)).trans (List.map_id _)
  have hdigits : ∀ c ∈ s.toList, isDigit c.toLower = true := by
    intro c hc
    refine hl.2 _ ?_
    rw [← hfolded]
    exact List.mem_map_of_mem hc
  rw [Text.lowercase, lowercaseAfter_digits hdigits, hfolded, String.ofList_toList]

lemma lowercase_login (hl : IsLogin l) : Text.lowercase l = l :=
  lowercase_of_sameIgnoringCase hl (beq_self_eq_true _)

/-- A text that is not as long as a login has none in it. -/
lemma contains_of_length_lt (hl : IsLogin l) (h : s.toList.length < 16) :
    Text.contains l s = false := by
  rw [Bool.eq_false_iff]
  intro hcontains
  have hlength := (Text.contains_iff.mp hcontains).length_le
  rw [hl.1] at hlength
  omega

/-- A text with fewer hexadecimal digits than a login has none in it. -/
lemma contains_of_countP_lt (hl : IsLogin l) (h : s.toList.countP isDigit < 16) :
    Text.contains l s = false := by
  rw [Bool.eq_false_iff]
  intro hcontains
  have hcount := (Text.contains_iff.mp hcontains).sublist.countP_le (p := isDigit)
  rw [List.countP_eq_length.mpr hl.2, hl.1] at hcount
  omega

/-- A text that is no part of a login and has none in it occurs in a login only if it is empty. -/
lemma eq_empty_of_contains (hl : IsLogin l) (hpart : ¬ IsPart s)
    (havoids : Text.contains l s = false) (h : Text.contains s l = true) : s = "" := by
  have hinside := Text.contains_iff.mp h
  by_contra hne
  have hnil : s.toList ≠ [] := fun hnil => hne (String.toList_inj.mp (hnil.trans rfl))
  refine hpart ⟨hnil, ?_, fun c hc => hl.2 c (hinside.subset hc)⟩
  by_contra hlong
  have hle := hinside.length_le
  rw [hl.1] at hle
  have hsame : s.toList = l.toList := hinside.eq_of_length (by rw [hl.1]; omega)
  have hself : Text.contains l s = true := Text.contains_iff.mpr (hsame ▸ List.infix_refl _)
  rw [havoids] at hself
  cases hself

end Login

/-! ### Searches -/

namespace Evaluation.Builtin

/-- The functions that look for text in text. -/
def isSearch : Builtin → Bool
  | contains | startsWith | endsWith => true
  | _ => false

/-- The way in which a search looks for text in text. -/
def finds : Builtin → String → String → Bool
  | startsWith, part, s => Text.startsWith part s
  | endsWith, part, s => Text.endsWith part s
  | _, part, s => Text.contains part s

variable {b : Builtin} {part s : String}

lemma contains_of_finds (h : b.finds part s = true) : Text.contains part s = true := by
  cases b with
  | startsWith => exact Text.contains_iff.mpr (Text.startsWith_iff.mp h).isInfix
  | endsWith => exact Text.contains_iff.mpr (Text.endsWith_iff.mp h).isInfix
  | _ => exact h

lemma finds_self (b : Builtin) (s : String) : b.finds s s = true := by
  cases b with
  | startsWith => exact Text.startsWith_iff.mpr List.prefix_rfl
  | endsWith => exact Text.endsWith_iff.mpr List.suffix_rfl
  | _ => exact Text.contains_iff.mpr List.infix_rfl

lemma finds_empty (b : Builtin) (s : String) : b.finds "" s = true := by
  cases b with
  | startsWith => exact Text.startsWith_iff.mpr List.nil_prefix
  | endsWith => exact Text.endsWith_iff.mpr List.nil_suffix
  | _ => exact Text.contains_iff.mpr List.nil_infix

/-- A search in a login finds the empty text and nothing else, unless it looks for a part of a
login or for the login itself. -/
lemma finds_login {l : String} (hl : Login.IsLogin l) (hpart : ¬ Login.IsPart part)
    (havoids : Text.contains l part = false) : b.finds part l = (part == "") := by
  rw [Bool.eq_iff_iff, beq_iff_eq]
  constructor
  · exact fun h => Login.eq_empty_of_contains hl hpart havoids (contains_of_finds h)
  · rintro rfl
    exact finds_empty b l

end Evaluation.Builtin

/-! ### Values without a login in them -/

namespace Value

open Login (IsLogin IsPart)
open Evaluation (Builtin)
open Evaluation.Builtin (parsed affix)

mutual

/-- No text that the value may turn out to be, or that stands in a list of it, has the login in
it. -/
def avoids (l : String) : Value → Bool
  | .text s => !Text.contains l (Text.lowercase s)
  | .number x => !Text.contains l (Text.lowercase x.display)
  | .list items => allAvoid l items
  | .flexible options => allAvoid l options
  | _ => true

def allAvoid (l : String) : List Value → Bool
  | [] => true
  | v :: rest => avoids l v && allAvoid l rest

end

/-- The value avoids the login, however often it is read as JSON. -/
def Spares (l : String) (v : Value) : Prop := ∀ n, (parsed^[n] v).avoids l = true

/-- No text that the value may turn out to be is a part of a login. -/
def IsNoPart (v : Value) : Prop :=
  ∀ y ∈ v.outcomes, y.isWildcard = true ∨ ¬ IsPart (Text.lowercase y.display)

/-- What an expression is with the one login and with the other. The login itself is there only if
the expression passes it on. -/
inductive Mirrors (l l' : String) (passes : Bool) : Value → Value → Prop
  | login : passes = true → Mirrors l l' passes (.text l) (.text l')
  | same {v : Value} : v.Spares l → v.Spares l' → Mirrors l l' passes v v

variable {l l' s : String} {v w v' w' y : Value} {passes passes' : Bool}

lemma Spares.avoids (h : v.Spares l) : v.avoids l = true := h 0

lemma Spares.parsed (h : v.Spares l) : (parsed v).Spares l := fun n => h (n + 1)

lemma spares_of_avoids (hparsed : Builtin.parsed v = v) (h : v.avoids l = true) : v.Spares l := by
  intro n
  rwa [Function.iterate_fixed hparsed]

lemma spares_bool (l : String) (b : Bool) : (Value.bool b).Spares l :=
  spares_of_avoids rfl (by simp [Value.avoids])

lemma allAvoid_iff {vs : List Value} : allAvoid l vs = true ↔ ∀ v ∈ vs, v.avoids l = true := by
  induction vs with
  | nil => simp [allAvoid]
  | cons v vs ih => simp [allAvoid, ih]

mutual

lemma avoids_of_mem_outcomes : (v : Value) → v.avoids l = true → ∀ y ∈ v.outcomes,
    y.avoids l = true ∧ ∀ options, y ≠ .flexible options
  | .flexible options, h, y, hy => by
    rw [avoids] at h
    rw [outcomes] at hy
    exact avoids_of_mem_outcomesOfAll options h y hy
  | .bool _, h, y, hy | .text _, h, y, hy | .number _, h, y, hy | .list _, h, y, hy
  | .object _, h, y, hy | .wildcard _, h, y, hy => by
    obtain rfl : y = _ := by simpa [outcomes] using hy
    exact ⟨h, by simp⟩

lemma avoids_of_mem_outcomesOfAll : (vs : List Value) → allAvoid l vs = true →
    ∀ y ∈ outcomesOfAll vs, y.avoids l = true ∧ ∀ options, y ≠ .flexible options
  | [], _, y, hy => by
    rw [outcomesOfAll] at hy
    cases hy
  | v :: rest, h, y, hy => by
    rw [allAvoid, Bool.and_eq_true] at h
    rw [outcomesOfAll, List.mem_append] at hy
    rcases hy with hy | hy
    · exact avoids_of_mem_outcomes v h.1 y hy
    · exact avoids_of_mem_outcomesOfAll rest h.2 y hy

end

/-- The text of an outcome has no login in it. -/
lemma contains_display (hl : IsLogin l) (h : v.avoids l = true) (hy : y ∈ v.outcomes)
    (hw : y.isWildcard = false) : Text.contains l (Text.lowercase y.display) = false := by
  obtain ⟨havoids, hflexible⟩ := avoids_of_mem_outcomes v h y hy
  cases y with
  | text s => rwa [avoids, Bool.not_eq_true'] at havoids
  | number x => rwa [avoids, Bool.not_eq_true'] at havoids
  | bool b => cases b <;> exact Login.contains_of_length_lt hl (by decide)
  | list items =>
    have hlength : (Text.lowercase "Array").toList.length < 16 := by decide
    exact Login.contains_of_length_lt hl hlength
  | object fields =>
    have hlength : (Text.lowercase "Object").toList.length < 16 := by decide
    exact Login.contains_of_length_lt hl hlength
  | wildcard origin => cases hw
  | flexible options => exact absurd rfl (hflexible options)

lemma sameIgnoringCase_login (hl : IsLogin l)
    (h : Text.contains l (Text.lowercase s) = false) : Text.sameIgnoringCase l s = false := by
  rw [Bool.eq_false_iff]
  intro hsame
  rw [Login.lowercase_of_sameIgnoringCase hl hsame,
    Text.contains_iff.mpr (List.infix_refl _)] at h
  cases h

/-- An outcome without the login in it is not equal to the login. -/
lemma agrees_login (hl : IsLogin l) (h : v.avoids l = true) (hy : y ∈ v.outcomes)
    (hw : y.isWildcard = false) :
    agrees (.text l) y = false ∧ agrees y (.text l) = false := by
  have hcontains := contains_display hl h hy hw
  have hsame := sameIgnoringCase_login hl hcontains
  have hsame' := (Text.sameIgnoringCase_comm y.display l).trans hsame
  cases y with
  | list items => exact ⟨rfl, rfl⟩
  | object fields => exact ⟨rfl, rfl⟩
  | wildcard origin => cases hw
  | bool b | text s | number x | flexible options => exact ⟨hsame, hsame'⟩

lemma any_congr_mem {p q : Value → Bool} {vs : List Value} (h : ∀ v ∈ vs, p v = q v) :
    vs.any p = vs.any q := by
  rw [Bool.eq_iff_iff, List.any_eq_true, List.any_eq_true]
  exact exists_congr fun v => and_congr_right fun hv => by rw [h v hv]

lemma outcomes_text (s : String) : (Value.text s).outcomes = [.text s] := by
  simp [outcomes]

/-! ### What operators make of a login -/

/-- Whether a value meets the login is decided without the login, as nothing but wildcards and the
login itself is equal to it. -/
lemma meets_login_left (hl : IsLogin l) (h : v.avoids l = true) (f : Bool → Bool) :
    meets (fun x y => f (agrees x y)) (.text l) v =
      (v.isWildcard || v.outcomes.any fun y => y.isWildcard || f false) := by
  rw [meets, outcomes_text, List.any_cons, List.any_nil, Bool.or_false]
  refine congrArg _ (any_congr_mem fun y hy => ?_)
  cases hw : y.isWildcard with
  | true => rfl
  | false => rw [(agrees_login hl h hy hw).1]

lemma meets_login_right (hl : IsLogin l) (h : v.avoids l = true) (f : Bool → Bool) :
    meets (fun x y => f (agrees x y)) v (.text l) =
      v.outcomes.any fun y => y.isWildcard || f false := by
  rw [meets, outcomes_text]
  refine any_congr_mem fun y hy => ?_
  cases hw : y.isWildcard with
  | true => rfl
  | false =>
    rw [List.any_cons, List.any_nil, (agrees_login hl h hy hw).2]
    simp [isWildcard]

lemma agrees_text_self (s : String) : agrees (.text s) (.text s) = true := beq_self_eq_true _

lemma holds_login (hl : IsLogin l) : (Value.text l).holds = true := by
  have hne : l ≠ "" := by
    rintro rfl
    exact absurd hl.1 (by decide)
  simpa [holds] using hne

lemma couldContain_self (s : String) : (Value.text s).couldContain (.text s) = true := by
  simp [couldContain, outcomes_text, outcomeContains, textContains,
    Text.contains_iff.mpr (List.infix_refl _)]

lemma couldContain_login (hl : IsLogin l) (h : v.avoids l = true) (hpart : v.IsNoPart) :
    (Value.text l).couldContain v =
      v.outcomes.any fun y => y.isWildcard || Text.lowercase y.display == "" := by
  rw [couldContain, outcomes_text, List.any_cons, List.any_nil, Bool.or_false, outcomeContains,
    textContains, display, Login.lowercase_login hl]
  · refine any_congr_mem fun y hy => ?_
    cases hw : y.isWildcard with
    | true => rfl
    | false =>
      have hno := (hpart y hy).resolve_left (by simp [hw])
      exact Builtin.finds_login (b := .contains) hl hno (contains_display hl h hy hw)
  all_goals simp

/-- Whether the login is found in a value is decided without the login. -/
lemma couldContain_of_avoids (hl : IsLogin l) (h : v.avoids l = true) :
    v.couldContain (.text l) = v.outcomes.any fun o => match o with
      | .wildcard _ => true
      | .list items => items.any fun i => i.outcomes.any isWildcard
      | _ => false := by
  rw [couldContain]
  refine any_congr_mem fun o ho => ?_
  obtain ⟨havoids, hflexible⟩ := avoids_of_mem_outcomes v h o ho
  have htext (hw : o.isWildcard = false) : textContains o (.text l) = false := by
    simpa [textContains, outcomes_text, isWildcard, display, Login.lowercase_login hl] using
      contains_display hl h ho hw
  cases o with
  | list items =>
    rw [avoids] at havoids
    refine any_congr_mem fun i hi => ?_
    have hmeets := meets_login_right hl (allAvoid_iff.mp havoids i hi) id
    rw [couldEqual]
    simpa using hmeets
  | text s => exact htext rfl
  | number x => exact htext rfl
  | bool b => rfl
  | object fields => rfl
  | wildcard origin => rfl
  | flexible options => exact absurd rfl (hflexible options)

lemma not_isPart_of_text (hpart : (Value.text s).IsNoPart) : ¬ IsPart (Text.lowercase s) := by
  have hout := hpart (.text s) (by simp [outcomes_text])
  rw [display] at hout
  exact hout.resolve_left (by simp [isWildcard])

lemma contains_of_avoids (h : (Value.text s).avoids l = true) :
    Text.contains l (Text.lowercase s) = false := by
  rwa [avoids, Bool.not_eq_true'] at h

lemma finds_of_avoids {b : Builtin} (hl : IsLogin l) (h : (Value.text s).avoids l = true) :
    b.finds (Text.lowercase l) (Text.lowercase s) = false := by
  rw [Login.lowercase_login hl, Bool.eq_false_iff]
  intro hfinds
  exact Bool.false_ne_true ((contains_of_avoids h).symm.trans (Builtin.contains_of_finds hfinds))

section Mirrors

variable (hl : IsLogin l) (hl' : IsLogin l')

include hl hl'

lemma Mirrors.meets (hv : Mirrors l l' passes v v') (hw : Mirrors l l' passes' w w')
    (f : Bool → Bool) :
    meets (fun x y => f (agrees x y)) v w = meets (fun x y => f (agrees x y)) v' w' := by
  cases hv with
  | login _ =>
    cases hw with
    | login _ => simp [Value.meets, outcomes_text, agrees_text_self, isWildcard]
    | same h h' => rw [meets_login_left hl h.avoids, meets_login_left hl' h'.avoids]
  | same h h' =>
    cases hw with
    | login _ => rw [meets_login_right hl h.avoids, meets_login_right hl' h'.avoids]
    | same _ _ => rfl

lemma Mirrors.couldEqual (hv : Mirrors l l' passes v v') (hw : Mirrors l l' passes' w w') :
    v.couldEqual w = v'.couldEqual w' :=
  hv.meets hl hl' hw id

lemma Mirrors.couldDiffer (hv : Mirrors l l' passes v v') (hw : Mirrors l l' passes' w w') :
    v.couldDiffer w = v'.couldDiffer w' :=
  hv.meets hl hl' hw not

lemma Mirrors.truthy (hv : Mirrors l l' passes v v') : v.truthy = v'.truthy := by
  cases hv with
  | login _ => simp [Value.truthy, outcomes_text, holds_login hl, holds_login hl']
  | same _ _ => rfl

lemma Mirrors.falsy (hv : Mirrors l l' passes v v') : v.falsy = v'.falsy := by
  cases hv with
  | login _ => simp [Value.falsy, outcomes_text, holds_login hl, holds_login hl', isWildcard]
  | same _ _ => rfl

/-- A search in the login finds the empty text only, unless it looks for a part of a login. -/
lemma Mirrors.couldContain (hv : Mirrors l l' passes v v') (hw : Mirrors l l' passes' w w')
    (hpart : passes = true → w.IsNoPart) : v.couldContain w = v'.couldContain w' := by
  cases hv with
  | login hpasses =>
    cases hw with
    | login _ => rw [couldContain_self, couldContain_self]
    | same h h' =>
      rw [couldContain_login hl h.avoids (hpart hpasses),
        couldContain_login hl' h'.avoids (hpart hpasses)]
  | same h h' =>
    cases hw with
    | login _ => rw [couldContain_of_avoids hl h.avoids, couldContain_of_avoids hl' h'.avoids]
    | same _ _ => rfl

lemma Mirrors.affix (b : Builtin) (hv : Mirrors l l' passes v v')
    (hw : Mirrors l l' passes' w w') (hpart : passes = true → w.IsNoPart) :
    affix b.finds v w = affix b.finds v' w' := by
  have hequal : Value.bool (v.couldEqual w) = .bool (v'.couldEqual w') :=
    congrArg Value.bool (hv.couldEqual hl hl' hw)
  cases hv with
  | login hpasses =>
    cases hw with
    | login _ => rw [Builtin.affix, Builtin.affix, Builtin.finds_self, Builtin.finds_self]
    | same h h' =>
      cases w with
      | text s =>
        have hno := not_isPart_of_text (hpart hpasses)
        rw [Builtin.affix, Builtin.affix, Login.lowercase_login hl, Login.lowercase_login hl',
          Builtin.finds_login hl hno (contains_of_avoids h.avoids),
          Builtin.finds_login hl' hno (contains_of_avoids h'.avoids)]
      | bool _ | number _ | list _ | object _ | wildcard _ | flexible _ => exact hequal
  | same h h' =>
    cases hw with
    | login _ =>
      cases v with
      | text s =>
        rw [Builtin.affix, Builtin.affix, finds_of_avoids hl h.avoids,
          finds_of_avoids hl' h'.avoids]
      | bool _ | number _ | list _ | object _ | wildcard _ | flexible _ => exact hequal
    | same _ _ => rfl

end Mirrors

lemma Mirrors.isWildcard (hv : Mirrors l l' passes v v') : v.isWildcard = v'.isWildcard := by
  cases hv <;> rfl

lemma Mirrors.parsed (hread : passes = true → Json.read? l = none ∧ Json.read? l' = none)
    (hv : Mirrors l l' passes v v') :
    Mirrors l l' passes (Builtin.parsed v) (Builtin.parsed v') := by
  cases hv with
  | login hpasses =>
    obtain ⟨hnone, hnone'⟩ := hread hpasses
    rw [Builtin.parsed, hnone, Builtin.parsed, hnone']
    exact .login hpasses
  | same h h' => exact .same h.parsed h'.parsed

end Value

end WorkflowAudit
