import WorkflowAudit.Hosting.Slug
import WorkflowAudit.Proofs.Text.Cuts

/-! Slugs as texts. A slug is read again from its display, unless it came without a reference and
has an at sign in its owner or repository. -/

namespace WorkflowAudit.Hosting.Slug

open Text (cutFirstChars cutLastChars)

/-- The slugs that come out of a reading. -/
structure IsWellFormed (slug : Slug) : Prop where
  owner_ne : slug.owner ≠ ""
  owner : '/' ∉ slug.owner.toList
  repo_ne : slug.repo ≠ ""
  repo : '/' ∉ slug.repo.toList
  ref_ne : slug.ref ≠ some ""
  ref : ∀ r ∈ slug.ref, '@' ∉ r.toList

/-- A slug is spelled by its display. Without a reference it may have an at sign at its end, and has
to have one there if there is another one. -/
def Spells (s : String) (slug : Slug) : Prop :=
  s = slug.display ∧ (slug.ref = none → '@' ∉ slug.name.toList) ∨
    slug.ref = none ∧ s = slug.name ++ "@"

/-- What stands before the reference, and the reference, if it is not empty. -/
def cutRef (cs : List Char) : List Char × Option String :=
  match cutLastChars '@' cs with
  | some (path, ref) => (path, if ref.isEmpty then none else some (String.ofList ref))
  | none => (cs, none)

variable {slug : Slug} {s : String} {cs path : List Char} {ref : Option String}

lemma cutRef_eq_iff : cutRef cs = (path, ref) ↔
    (∃ r, ref = some r ∧ r ≠ "" ∧ '@' ∉ r.toList ∧ cs = path ++ '@' :: r.toList) ∨
      ref = none ∧ (cs = path ∧ '@' ∉ path ∨ cs = path ++ ['@']) := by
  rw [cutRef]
  cases hcut : cutLastChars '@' cs with
  | none =>
    have hat := Text.cutLastChars_eq_none_iff.mp hcut
    constructor
    · rintro ⟨⟩
      exact .inr ⟨rfl, .inl ⟨rfl, hat⟩⟩
    · rintro (⟨r, -, -, -, rfl⟩ | ⟨rfl, ⟨rfl, -⟩ | rfl⟩)
      · exact absurd (by simp) hat
      · rfl
      · exact absurd (by simp) hat
  | some cut =>
    obtain ⟨before, after⟩ := cut
    obtain ⟨rfl, hafter⟩ := Text.cutLastChars_eq_some_iff.mp hcut
    have hsame {path' ref' : List Char} (hr : '@' ∉ ref')
        (heq : before ++ '@' :: after = path' ++ '@' :: ref') : before = path' ∧ after = ref' := by
      rw [Text.cutLastChars_eq_some_iff.mpr ⟨heq, hr⟩] at hcut
      cases hcut
      exact ⟨rfl, rfl⟩
    constructor
    · rintro ⟨⟩
      cases after with
      | nil => exact .inr ⟨rfl, .inr rfl⟩
      | cons c after => exact .inl ⟨_, rfl, by simp, by simpa using hafter, by simp⟩
    · rintro (⟨r, rfl, hne, hr, heq⟩ | ⟨rfl, ⟨rfl, hat⟩ | heq⟩)
      · obtain ⟨rfl, rfl⟩ := hsame hr heq
        simp [hne]
      · exact absurd (by simp) hat
      · obtain ⟨rfl, rfl⟩ := hsame (by simp) heq
        rfl

lemma toList_name (slug : Slug) :
    slug.name.toList = slug.owner.toList ++ '/' :: slug.repo.toList := by
  simp [name]

lemma parse_eq (s : String) : parse s =
    (cutFirstChars '/' (cutRef s.toList).1).elim (.error (.tooShort s)) fun cut =>
      if cut.2.contains '/' then .error (.tooManyParts s)
      else if cut.1.isEmpty || cut.2.isEmpty then .error (.tooShort s)
      else .ok ⟨String.ofList cut.1, String.ofList cut.2, (cutRef s.toList).2⟩ := by
  unfold parse cutRef
  cases cutLastChars '@' s.toList with
  | none => cases hcut : cutFirstChars '/' s.toList <;> simp [hcut]
  | some cut => cases hcut : cutFirstChars '/' cut.1 <;> simp [hcut]

lemma parse_eq_ok_iff : parse s = .ok slug ↔
    cutRef s.toList = (slug.name.toList, slug.ref) ∧ slug.owner ≠ "" ∧ '/' ∉ slug.owner.toList ∧
      slug.repo ≠ "" ∧ '/' ∉ slug.repo.toList := by
  rw [parse_eq]
  generalize cutRef s.toList = cut
  obtain ⟨path, ref⟩ := cut
  dsimp only
  rw [Prod.mk.injEq, toList_name]
  cases hcut : cutFirstChars '/' path with
  | none =>
    refine iff_of_false (by simp) ?_
    rintro ⟨⟨rfl, -⟩, -⟩
    exact Text.cutFirstChars_eq_none_iff.mp hcut (by simp)
  | some cut =>
    obtain ⟨owner, repo⟩ := cut
    constructor
    · intro h
      obtain ⟨rfl, howner⟩ := Text.cutFirstChars_eq_some_iff.mp hcut
      rw [Option.elim_some] at h
      split at h
      case isTrue => cases h
      next hrepo =>
      split at h
      case isTrue => cases h
      next hne =>
      cases h
      rw [Bool.or_eq_true, List.isEmpty_iff, List.isEmpty_iff, not_or] at hne
      simp_all
    · rintro ⟨⟨rfl, rfl⟩, howner_ne, howner, hrepo_ne, hrepo⟩
      rw [Text.cutFirstChars_eq_some_iff.mpr ⟨rfl, howner⟩] at hcut
      cases hcut
      simp [howner_ne, hrepo_ne, hrepo]

lemma toList_display (slug : Slug) :
    slug.display.toList = slug.name.toList ++ slug.ref.elim [] ('@' :: ·.toList) := by
  rw [display]
  cases slug.ref <;> simp

/-- A slug is read from just those texts that spell it. -/
lemma parse_eq_ok_iff_spells : parse s = .ok slug ↔ slug.IsWellFormed ∧ Spells s slug := by
  have hspells : Spells s slug ↔
      s.toList = slug.name.toList ++ slug.ref.elim [] ('@' :: ·.toList) ∧
          (slug.ref = none → '@' ∉ slug.name.toList) ∨
        slug.ref = none ∧ s.toList = slug.name.toList ++ ['@'] := by
    rw [Spells, ← String.toList_inj, toList_display, ← String.toList_inj, String.toList_append]
    rfl
  rw [parse_eq_ok_iff, cutRef_eq_iff, hspells]
  constructor
  · rintro ⟨href, howner_ne, howner, hrepo_ne, hrepo⟩
    rcases href with ⟨r, hr, hne, hat, hs⟩ | ⟨hr, hs⟩
    · exact ⟨⟨howner_ne, howner, hrepo_ne, hrepo, by simpa [hr] using hne, by simpa [hr] using hat⟩,
        .inl ⟨by simpa [hr] using hs, by simp [hr]⟩⟩
    · exact ⟨⟨howner_ne, howner, hrepo_ne, hrepo, by simp [hr], by simp [hr]⟩,
        by simpa [hr] using hs⟩
  · rintro ⟨h, hs⟩
    refine ⟨?_, h.owner_ne, h.owner, h.repo_ne, h.repo⟩
    cases hr : slug.ref with
    | none => exact .inr ⟨rfl, by simpa [hr] using hs⟩
    | some r =>
      refine .inl ⟨r, rfl, ?_, h.ref r hr, by simpa [hr] using hs⟩
      rintro rfl
      exact h.ref_ne hr

lemma IsWellFormed.display_ne (h : slug.IsWellFormed)
    (hat : slug.ref = none → '@' ∉ slug.name.toList) (path : List Char) :
    slug.display.toList ≠ path ++ ['@'] := by
  rw [toList_display]
  intro heq
  cases hr : slug.ref with
  | none =>
    refine hat hr ?_
    rw [hr, Option.elim_none, List.append_nil] at heq
    simp [heq]
  | some r =>
    obtain ⟨front, c, hr'⟩ : ∃ front c, r.toList = front ++ [c] := by
      refine (List.eq_nil_or_concat' _).resolve_left fun hnil => h.ref_ne ?_
      rw [hr, String.toList_eq_nil_iff.mp hnil]
    have hc := congrArg List.getLast? heq
    rw [hr, Option.elim_some, hr', ← List.cons_append, ← List.append_assoc,
      List.getLast?_concat, List.getLast?_concat] at hc
    refine h.ref r hr ?_
    rw [hr', Option.some.inj hc]
    simp

/-- A slug that is read is read again from its display just when it has a reference or no at sign,
that is, unless an at sign that ends its text hides another one. -/
theorem display_read_iff (h : parse s = .ok slug) :
    (parse slug.display = .ok slug ↔ (slug.ref = none → '@' ∉ slug.name.toList)) ∧
      (parse slug.display = .ok slug ↔ ∀ path, s.toList = path ++ ['@'] → '@' ∉ path) ∧
      (s = slug.display ∨ slug.ref = none ∧ s = slug.display ++ "@") := by
  obtain ⟨hwell, hs⟩ := parse_eq_ok_iff_spells.mp h
  have hread : parse slug.display = .ok slug ↔ (slug.ref = none → '@' ∉ slug.name.toList) := by
    rw [parse_eq_ok_iff_spells, and_iff_right hwell, Spells, and_iff_right rfl, or_iff_left]
    rintro ⟨hr, heq⟩
    have hlength := congrArg (·.toList.length) heq
    simp [display, hr] at hlength
  have hnone (hr : slug.ref = none) : slug.display = slug.name := by rw [display, hr]
  refine ⟨hread, hread.trans ?_, ?_⟩
  · rcases hs with ⟨rfl, hat⟩ | ⟨hr, rfl⟩
    · refine iff_of_true hat fun path hpath => absurd hpath (hwell.display_ne hat path)
    · simp [hr, String.toList_append]
  · rcases hs with ⟨hs, -⟩ | ⟨hr, hs⟩
    · exact .inl hs
    · exact .inr ⟨hr, by rw [hnone hr, hs]⟩

theorem tagged_slug_reads_again :
    parse "acme/wid@gets@v1/x" = .ok ⟨"acme", "wid@gets", some "v1/x"⟩ ∧
      parse (display ⟨"acme", "wid@gets", some "v1/x"⟩) =
        .ok ⟨"acme", "wid@gets", some "v1/x"⟩ := by
  have h : parse "acme/wid@gets@v1/x" = .ok ⟨"acme", "wid@gets", some "v1/x"⟩ := by decide +kernel
  exact ⟨h, (display_read_iff h).1.mpr (by simp)⟩

/-- Without the at sign at its end the text of a slug loses another one to the reference. -/
theorem hidden_at_lost :
    parse "a@b/c@" = .ok ⟨"a@b", "c", none⟩ ∧ display ⟨"a@b", "c", none⟩ = "a@b/c" ∧
      parse "a@b/c" = .error (.tooShort "a@b/c") ∧
      parse "acme/widgets@main@" = .ok ⟨"acme", "widgets@main", none⟩ ∧
      display ⟨"acme", "widgets@main", none⟩ = "acme/widgets@main" ∧
      parse "acme/widgets@main" = .ok ⟨"acme", "widgets", some "main"⟩ := by
  decide +kernel

end WorkflowAudit.Hosting.Slug
