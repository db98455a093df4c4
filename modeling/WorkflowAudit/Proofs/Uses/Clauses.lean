import WorkflowAudit.Proofs.Text.Cuts
import WorkflowAudit.Uses.Basic

/-! Clauses of a repository, as texts. Each clause that can be read has one text that it is displayed
by, and its other texts differ from that one in the slashes around the subpath only. -/

namespace WorkflowAudit.RepositoryUses

open Text (cutFirstChars cutLastChars splitChars EndsOutside)

/-- The clauses that come out of a reading. -/
structure IsWellFormed (u : RepositoryUses) : Prop where
  owner_ne : u.owner ≠ ""
  owner : '/' ∉ u.owner.toList
  repo_ne : u.repo ≠ ""
  repo : '/' ∉ u.repo.toList
  subpath_ne : u.subpath ≠ some ""
  subpath : ∀ p ∈ u.subpath, p.toList.head? ≠ some '/' ∧ p.toList.getLast? ≠ some '/'
  ref : ∀ r ∈ u.ref, '@' ∉ r.toList
  noRef : u.ref = none → '@' ∉ u.display.toList

def subpathText (u : RepositoryUses) : List Char := (u.subpath.getD "").toList

def refText : Option String → List Char
  | some r => '@' :: r.toList
  | none => []

/-- A clause with slashes before and behind its subpath, if it has one. -/
def spelled (u : RepositoryUses) (front back : Nat) : List Char :=
  u.owner.toList ++ '/' :: (u.repo.toList ++ (List.replicate front '/' ++
    (u.subpathText ++ List.replicate back '/'))) ++ refText u.ref

/-- Slashes part the subpath from the repository. -/
def Spells (s : String) (u : RepositoryUses) : Prop :=
  ∃ front back, s.toList = u.spelled front back ∧ (u.subpath ≠ none → 0 < front)

/-- The text before the last at sign, and what follows that sign. -/
def IsDivided (cs path : List Char) : Option (List Char) → Prop
  | some ref => cs = path ++ '@' :: ref ∧ '@' ∉ ref
  | none => cs = path ∧ '@' ∉ cs

/-- A path has a part of some number, and it is not empty. -/
def HasPart (path : List Char) (i : Nat) : Prop := ∃ part ∈ (splitChars '/' path)[i]?, part ≠ []

variable {u : RepositoryUses} {cs path owner repo tail : List Char} {ref : Option (List Char)}
  {s : String}

lemma exists_isDivided (cs : List Char) : ∃ path ref, IsDivided cs path ref := by
  cases h : cutLastChars '@' cs with
  | none => exact ⟨cs, none, rfl, Text.cutLastChars_eq_none_iff.mp h⟩
  | some cut => exact ⟨cut.1, some cut.2, Text.cutLastChars_eq_some_iff.mp h⟩

/-- A path begins with an owner and a repository, behind which it ends or goes on with a slash. -/
structure IsPath (path owner repo tail : List Char) : Prop where
  eq : path = owner ++ '/' :: (repo ++ tail)
  owner_ne : owner ≠ []
  owner : '/' ∉ owner
  repo_ne : repo ≠ []
  repo : '/' ∉ repo
  tail : ∀ c ∈ tail.head?, c = '/'

/-- What a reading makes of the parts of a path. -/
def ofParts (owner repo tail : List Char) (ref : Option (List Char)) : RepositoryUses where
  owner := String.ofList owner
  repo := String.ofList repo
  subpath := if (trimSlashes tail).isEmpty then none else some (String.ofList (trimSlashes tail))
  ref := ref.map String.ofList

lemma trimSlashes_eq_between (cs : List Char) : trimSlashes cs = Text.between (· = '/') cs := rfl

lemma trimSlashes_cons (cs : List Char) : trimSlashes ('/' :: cs) = trimSlashes cs := rfl

/-! ### Reading by parts -/

lemma cutRef_eq_iff : cutRef cs = (path, ref) ↔ IsDivided cs path ref := by
  rw [cutRef]
  cases h : cutLastChars '@' cs with
  | none =>
    have hat := Text.cutLastChars_eq_none_iff.mp h
    cases ref with
    | none => simp [IsDivided, hat]
    | some ref =>
      refine iff_of_false (by simp) ?_
      rintro ⟨rfl, -⟩
      exact hat (by simp)
  | some cut =>
    have hcut := Text.cutLastChars_eq_some_iff.mp h
    cases ref with
    | none =>
      refine iff_of_false (by simp) ?_
      rintro ⟨-, hat⟩
      exact hat (by simp [hcut.1])
    | some ref =>
      rw [IsDivided, ← Text.cutLastChars_eq_some_iff, h]
      simp [Prod.ext_iff]

lemma cutSubpath_append (hrepo : '/' ∉ repo) (htail : ∀ c ∈ tail.head?, c = '/') :
    cutSubpath (repo ++ tail) = (repo, trimSlashes tail) := by
  rw [cutSubpath]
  cases tail with
  | nil =>
    rw [List.append_nil, Text.cutFirstChars_eq_none_iff.mpr hrepo]
    rfl
  | cons c tail =>
    obtain rfl := htail c rfl
    rw [Text.cutFirstChars_eq_some_iff.mpr ⟨rfl, hrepo⟩, trimSlashes_cons]

lemma exists_tail (cs : List Char) :
    ∃ repo tail, cs = repo ++ tail ∧ '/' ∉ repo ∧ ∀ c ∈ tail.head?, c = '/' := by
  cases h : cutFirstChars '/' cs with
  | none => exact ⟨cs, [], by simp, Text.cutFirstChars_eq_none_iff.mp h, by simp⟩
  | some cut =>
    obtain ⟨hcut, hrepo⟩ := Text.cutFirstChars_eq_some_iff.mp h
    exact ⟨cut.1, '/' :: cut.2, hcut, hrepo, by simp⟩

lemma ofChars?_of_isPath (hd : IsDivided cs path ref) (h : IsPath path owner repo tail) :
    ofChars? cs = some (ofParts owner repo tail ref) := by
  have howner : owner.isEmpty = false := List.isEmpty_eq_false_iff.mpr h.owner_ne
  have hrepo : repo.isEmpty = false := List.isEmpty_eq_false_iff.mpr h.repo_ne
  have hbegin : cutFirstChars '/' path = some (owner, repo ++ tail) :=
    Text.cutFirstChars_eq_some_iff.mpr ⟨h.eq, h.owner⟩
  rw [ofChars?, cutRef_eq_iff.mpr hd]
  simp only [hbegin, cutSubpath_append h.repo h.tail, howner, hrepo, Bool.or_self]
  rfl

lemma exists_isPath_of_ofChars? (hd : IsDivided cs path ref) (h : ofChars? cs = some u) :
    ∃ owner repo tail, IsPath path owner repo tail := by
  rw [ofChars?, cutRef_eq_iff.mpr hd] at h
  dsimp only at h
  cases hbegin : cutFirstChars '/' path with
  | none => simp [hbegin] at h
  | some cut =>
    obtain ⟨owner, rest⟩ := cut
    obtain ⟨hpath, howner⟩ := Text.cutFirstChars_eq_some_iff.mp hbegin
    obtain ⟨repo, tail, rfl, hrepo, htail⟩ := exists_tail rest
    simp only [hbegin, cutSubpath_append hrepo htail] at h
    split at h
    · cases h
    · next hne =>
      rw [Bool.or_eq_true, List.isEmpty_iff, List.isEmpty_iff, not_or] at hne
      exact ⟨owner, repo, tail, hpath, hne.1, howner, hne.2, hrepo, htail⟩

lemma exists_isPath_iff :
    (∃ owner repo tail, IsPath path owner repo tail) ↔ HasPart path 0 ∧ HasPart path 1 := by
  have hsplit {repo tail : List Char} (hrepo : '/' ∉ repo) (htail : ∀ c ∈ tail.head?, c = '/') :
      (splitChars '/' (repo ++ tail))[0]? = some repo := by
    cases tail with
    | nil => rw [List.append_nil, Text.splitChars_of_notMem hrepo, List.getElem?_cons_zero]
    | cons c tail =>
      obtain rfl := htail c rfl
      rw [Text.splitChars_append_cons hrepo, List.getElem?_cons_zero]
  constructor
  · rintro ⟨owner, repo, tail, h⟩
    rw [HasPart, HasPart, h.eq, Text.splitChars_append_cons h.owner, List.getElem?_cons_zero,
      List.getElem?_cons_succ, hsplit h.repo h.tail]
    exact ⟨⟨owner, rfl, h.owner_ne⟩, repo, rfl, h.repo_ne⟩
  · rintro ⟨⟨owner', howner', hne⟩, repo', hrepo', hne'⟩
    cases hbegin : cutFirstChars '/' path with
    | none =>
      rw [Text.splitChars_of_notMem (Text.cutFirstChars_eq_none_iff.mp hbegin)] at hrepo'
      cases hrepo'
    | some cut =>
      obtain ⟨owner, rest⟩ := cut
      obtain ⟨rfl, howner⟩ := Text.cutFirstChars_eq_some_iff.mp hbegin
      obtain ⟨repo, tail, rfl, hrepo, htail⟩ := exists_tail rest
      rw [Text.splitChars_append_cons howner, List.getElem?_cons_zero] at howner'
      rw [Text.splitChars_append_cons howner, List.getElem?_cons_succ, hsplit hrepo htail] at hrepo'
      obtain rfl := Option.some.inj howner'
      obtain rfl := Option.some.inj hrepo'
      exact ⟨owner, repo, tail, rfl, hne, howner, hne', hrepo, htail⟩

/-! ### Well-formed clauses -/

lemma eq_slash_of_mem_replicate {n : Nat} {c : Char} (h : c ∈ List.replicate n '/') :
    decide (c = '/') = true := decide_eq_true (List.eq_of_mem_replicate h)

lemma toList_display (u : RepositoryUses) :
    u.display.toList = u.spelled (if u.subpath = none then 0 else 1) 0 := by
  rw [display, slug, spelled, subpathText]
  cases u.subpath <;> cases u.ref <;> simp [refText]

lemma spells_display (u : RepositoryUses) : Spells u.display u := by
  refine ⟨_, 0, toList_display u, fun h => ?_⟩
  rw [if_neg h]
  exact Nat.one_pos

lemma at_mem_spelled_iff (hr : u.ref = none) (front back : Nat) :
    '@' ∈ u.spelled front back ↔
      '@' ∈ u.owner.toList ∨ '@' ∈ u.repo.toList ∨ '@' ∈ u.subpathText := by
  simp [spelled, refText, hr]

lemma IsWellFormed.endsOutside (h : u.IsWellFormed) : EndsOutside (· = '/') u.subpathText := by
  rw [subpathText]
  cases hp : u.subpath with
  | none => exact ⟨by simp, by simp⟩
  | some p =>
    obtain ⟨hfirst, hlast⟩ := h.subpath p hp
    refine ⟨fun c hc => ?_, fun c hc => ?_⟩ <;> rw [decide_eq_false_iff_not] <;> rintro rfl
    · exact hfirst hc
    · exact hlast hc

lemma IsWellFormed.subpath_eq (h : u.IsWellFormed) :
    (if u.subpathText.isEmpty then none else some (String.ofList u.subpathText)) = u.subpath := by
  rw [subpathText]
  cases hp : u.subpath with
  | none => rfl
  | some p =>
    have hne : p ≠ "" := fun hempty => h.subpath_ne (hempty ▸ hp)
    simp [hne]

lemma IsWellFormed.ofChars?_of_spells (h : u.IsWellFormed) (hs : Spells s u) :
    ofChars? s.toList = some u := by
  obtain ⟨front, back, hspelled, hfront⟩ := hs
  set tail := List.replicate front '/' ++ (u.subpathText ++ List.replicate back '/') with htail
  have hpath : IsPath (u.owner.toList ++ '/' :: (u.repo.toList ++ tail)) u.owner.toList
      u.repo.toList tail := by
    refine ⟨rfl, by simpa using h.owner_ne, h.owner, by simpa using h.repo_ne, h.repo, ?_⟩
    intro c hc
    cases front with
    | succ n => exact Option.some.inj (hc.symm.trans rfl)
    | zero =>
      have hnone : u.subpath = none := by
        by_contra hsome
        exact absurd (hfront hsome) (Nat.lt_irrefl 0)
      rw [htail, subpathText, hnone] at hc
      exact List.eq_of_mem_replicate (List.mem_of_mem_head? hc)
  have hdivided : IsDivided s.toList (u.owner.toList ++ '/' :: (u.repo.toList ++ tail))
      (u.ref.map String.toList) := by
    rw [hspelled]
    cases hr : u.ref with
    | some r => exact ⟨by rw [spelled, hr, refText], h.ref r hr⟩
    | none =>
      refine ⟨by rw [spelled, hr, refText, List.append_nil], ?_⟩
      have hat := h.noRef hr
      rwa [toList_display, at_mem_spelled_iff hr, ← at_mem_spelled_iff hr front back] at hat
  have htrim : trimSlashes tail = u.subpathText :=
    Text.between_eq h.endsOutside (fun _ => eq_slash_of_mem_replicate) fun _ =>
      eq_slash_of_mem_replicate
  rw [ofChars?_of_isPath hdivided hpath, ofParts, htrim, h.subpath_eq, Option.map_map]
  simp [Function.comp_def]

lemma subpathText_ofParts : (ofParts owner repo tail ref).subpathText = trimSlashes tail := by
  rw [subpathText, ofParts]
  cases htrim : trimSlashes tail <;> simp

lemma spells_ofParts (hd : IsDivided cs path ref) (h : IsPath path owner repo tail) :
    Spells (String.ofList cs) (ofParts owner repo tail ref) := by
  obtain ⟨front, back, htail, hfront, hback⟩ := Text.exists_between (· = '/') tail
  have hslashes {part : List Char} (hpart : ∀ c ∈ part, decide (c = '/') = true) :
      List.replicate part.length '/' = part :=
    (List.eq_replicate_of_mem fun c hc => of_decide_eq_true (hpart c hc)).symm
  refine ⟨front.length, back.length, ?_, fun hsome => ?_⟩
  · have hcs : cs = path ++ refText (ref.map String.ofList) := by
      cases ref with
      | some r => simpa [refText] using hd.1
      | none => simpa [refText] using hd.1
    rw [spelled, subpathText_ofParts, hslashes hfront, hslashes hback, trimSlashes_eq_between,
      ← htail, String.toList_ofList, hcs, h.eq]
    simp [ofParts]
  · by_contra hzero
    obtain rfl : front = [] := List.length_eq_zero_iff.mp (Nat.eq_zero_of_not_pos hzero)
    -- The first character of the subpath would be the slash that the tail begins with.
    cases hsub : trimSlashes tail with
    | nil => exact hsome (by rw [ofParts, hsub]; rfl)
    | cons c rest =>
      rw [trimSlashes_eq_between] at hsub
      have hslash : c = '/' := h.tail c (by rw [htail, hsub]; rfl)
      have hnot := (Text.endsOutside_between (· = '/') tail).first c (by rw [hsub]; rfl)
      exact of_decide_eq_false hnot hslash

lemma isWellFormed_ofParts (hd : IsDivided cs path ref) (h : IsPath path owner repo tail) :
    (ofParts owner repo tail ref).IsWellFormed where
  owner_ne := by simpa [ofParts] using h.owner_ne
  owner := by simpa [ofParts] using h.owner
  repo_ne := by simpa [ofParts] using h.repo_ne
  repo := by simpa [ofParts] using h.repo
  subpath_ne := by
    rw [ofParts]
    cases hsub : trimSlashes tail <;> simp
  subpath := by
    intro p hp
    obtain rfl : p = String.ofList (trimSlashes tail) := by
      rw [ofParts] at hp
      split at hp
      · cases hp
      · exact (Option.some.inj hp).symm
    have hends := Text.endsOutside_between (· = '/') tail
    rw [String.toList_ofList, trimSlashes_eq_between]
    exact ⟨fun hc => of_decide_eq_false (hends.first _ hc) rfl,
      fun hc => of_decide_eq_false (hends.last _ hc) rfl⟩
  ref := by
    intro r hr
    obtain ⟨cs', rfl, rfl⟩ := Option.map_eq_some_iff.mp hr
    rw [String.toList_ofList]
    exact hd.2
  noRef := by
    intro hr
    obtain rfl : ref = none := Option.map_eq_none_iff.mp hr
    obtain ⟨rfl, hat⟩ := hd
    obtain ⟨front, back, htail, -⟩ := Text.exists_between (· = '/') tail
    rw [toList_display, at_mem_spelled_iff hr, subpathText_ofParts, trimSlashes_eq_between]
    rw [h.eq, htail] at hat
    simp only [ofParts, String.toList_ofList]
    simp only [List.mem_append, List.mem_cons] at hat
    tauto

/-! ### Reading and display -/

lemma ofChars?_eq_some_iff : ofChars? s.toList = some u ↔ u.IsWellFormed ∧ Spells s u := by
  constructor
  · intro h
    obtain ⟨path, ref, hd⟩ := exists_isDivided s.toList
    obtain ⟨owner, repo, tail, hpath⟩ := exists_isPath_of_ofChars? hd h
    rw [ofChars?_of_isPath hd hpath] at h
    obtain rfl := Option.some.inj h
    have hspells := spells_ofParts hd hpath
    rw [String.ofList_toList] at hspells
    exact ⟨isWellFormed_ofParts hd hpath, hspells⟩
  · rintro ⟨h, hs⟩
    exact h.ofChars?_of_spells hs

lemma ofChars?_eq_none_iff (hd : IsDivided cs path ref) :
    ofChars? cs = none ↔ ¬ (HasPart path 0 ∧ HasPart path 1) := by
  rw [← exists_isPath_iff, Option.eq_none_iff_forall_ne_some]
  constructor
  · rintro h ⟨owner, repo, tail, hpath⟩
    exact h _ (ofChars?_of_isPath hd hpath)
  · intro h u hu
    exact h (exists_isPath_of_ofChars? hd hu)

lemma parse_eq_ok_iff : parse s = .ok u ↔ ofChars? s.toList = some u := by
  rw [parse]
  cases ofChars? s.toList <;> simp

lemma parse_eq_error_iff {e : UsesError} :
    parse s = .error e ↔ ofChars? s.toList = none ∧ e = ⟨s⟩ := by
  rw [parse]
  cases ofChars? s.toList <;> simp [eq_comm]

/-- A clause that is read is read again from its display. It is read from just those texts that
spell it, and a text is refused, as a whole, when the path before its last at sign has not both an
owner and a repository. -/
theorem parse_exact :
    (∀ s u, parse s = .ok u → u.IsWellFormed ∧ parse u.display = .ok u) ∧
      (∀ s u, parse s = .ok u ↔ u.IsWellFormed ∧ Spells s u) ∧
      ∀ s, ∃ path ref, IsDivided s.toList path ref ∧
        ∀ e, parse s = .error e ↔ ¬ (HasPart path 0 ∧ HasPart path 1) ∧ e = ⟨s⟩ := by
  have hread (s : String) (u : RepositoryUses) :
      parse s = .ok u ↔ u.IsWellFormed ∧ Spells s u := by
    rw [parse_eq_ok_iff, ofChars?_eq_some_iff]
  refine ⟨fun s u h => ?_, hread, fun s => ?_⟩
  · have hu := ((hread s u).mp h).1
    exact ⟨hu, (hread _ u).mpr ⟨hu, spells_display u⟩⟩
  · obtain ⟨path, ref, hd⟩ := exists_isDivided s.toList
    refine ⟨path, ref, hd, fun e => ?_⟩
    rw [parse_eq_error_iff, ofChars?_eq_none_iff hd]

example : parse "o/r//a//b/@v/1" = .ok ⟨"o", "r", some "a//b", some "v/1"⟩ := by decide +kernel

end WorkflowAudit.RepositoryUses
