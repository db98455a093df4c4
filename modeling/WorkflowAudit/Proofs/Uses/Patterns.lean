import WorkflowAudit.Classification.Tables
import WorkflowAudit.Proofs.Text.LetterCase
import WorkflowAudit.Proofs.Uses.Clauses

/-! Patterns against clauses. A pattern divides its text as a clause does, but for slashes around
the subpath, which it keeps, and several at signs, of which it takes the first. Such a pattern
accepts nothing at all; any other one accepts the clause of the same text. -/

namespace WorkflowAudit.UsesPattern

open RepositoryUses (trimSlashes refText subpathText IsPath)
open Classification (Tables)

/-- A text in which neither a slash nor an at sign can be cut. -/
def IsPlain (cs : List Char) : Prop := cs ≠ [] ∧ '/' ∉ cs ∧ '@' ∉ cs

namespace Parts

/-- What follows the repository, up to the reference. -/
def tail (p : Parts) : List Char := p.subpath.elim [] ('/' :: ·)

def path (p : Parts) : List Char := p.owner ++ '/' :: (p.repo ++ p.tail)

/-- The parts that are read from a text. -/
structure IsRead (p : Parts) (cs : List Char) : Prop where
  eq : cs = p.path ++ refText (p.ref.map String.ofList)
  owner : IsPlain p.owner
  repo : IsPlain p.repo
  subpath_ne : p.subpath ≠ some []
  subpath : ∀ sub ∈ p.subpath, '@' ∉ sub

/-- The parts stand as a clause would have them. -/
structure IsUsable (p : Parts) : Prop where
  subpath : ∀ sub ∈ p.subpath, trimSlashes sub = sub
  ref : ∀ ref ∈ p.ref, '@' ∉ ref

/-- What a pattern of these parts asks of a clause; of what a star stands for, nothing. -/
def IsMetBy (p : Parts) (u : RepositoryUses) : Prop :=
  Text.sameIgnoringCase u.owner (String.ofList p.owner) = true ∧
    (p.repo ≠ ['*'] → Text.sameIgnoringCase u.repo (String.ofList p.repo) = true ∧
      (p.subpath ≠ some ['*'] → u.subpath = p.subpath.map String.ofList)) ∧
    ∀ ref ∈ p.ref, u.ref = some (String.ofList ref)

end Parts

variable {p : Parts} {pattern : UsesPattern} {u : RepositoryUses} {cs sub : List Char}
  {ref : Option (List Char)} {s : String}

/-! ### Reading -/

lemma refPart_eq_some (h : refPart cs = some ref) : cs = refText (ref.map String.ofList) := by
  unfold refPart at h
  split at h
  · obtain rfl := Option.some.inj h
    rfl
  · split at h
    · obtain rfl := Option.some.inj h
      simp [refText]
    · cases h
  · cases h

lemma isPlain_takeWhile {q : Char → Bool} (hne : (cs.takeWhile q).isEmpty ≠ true)
    (hslash : q '/' = false) (hat : q '@' = false) : IsPlain (cs.takeWhile q) := by
  refine ⟨by simpa using hne, fun h => ?_, fun h => ?_⟩
  · exact absurd (List.mem_takeWhile_imp h) (by simp [hslash])
  · exact absurd (List.mem_takeWhile_imp h) (by simp [hat])

lemma at_notMem_takeWhile : '@' ∉ cs.takeWhile isSubpathChar :=
  fun h => absurd (List.mem_takeWhile_imp h) (by decide)

lemma isRead_of_parts? (h : parts? cs = some p) : p.IsRead cs := by
  rw [parts?] at h
  split at h
  case isTrue => cases h
  next howner =>
  split at h
  case h_2 => cases h
  next rest hrest =>
  split at h
  next repo rest' hcut =>
  split at h
  case isTrue => cases h
  next hrepo =>
  have hcs : cs = cs.takeWhile (fun c => Text.isWordChar c || decide (c = '-')) ++ '/' :: rest := by
    rw [← hrest, List.takeWhile_append_dropWhile]
  obtain ⟨rfl, hrepo⟩ : rest = repo ++ rest' ∧ IsPlain repo := by
    split at hcut
    · cases hcut
      exact ⟨rfl, by simp [IsPlain]⟩
    · cases hcut
      exact ⟨List.takeWhile_append_dropWhile.symm, isPlain_takeWhile hrepo (by decide) (by decide)⟩
  have howner := isPlain_takeWhile howner (by decide) (by decide)
  generalize cs.takeWhile (fun c => Text.isWordChar c || decide (c = '-')) = owner at *
  -- The three cases are those of a star, a subpath and none behind the repository.
  split at h
  · obtain ⟨ref, href, rfl⟩ := Option.map_eq_some_iff.mp h
    refine ⟨?_, howner, hrepo, by simp, by simp⟩
    rw [hcs, refPart_eq_some href]
    simp [Parts.path, Parts.tail]
  · dsimp only at h
    split at h
    case isTrue => cases h
    next rest hstar hsub =>
    obtain ⟨ref, href, rfl⟩ := Option.map_eq_some_iff.mp h
    refine ⟨?_, howner, hrepo, by simpa using hsub, by simp [at_notMem_takeWhile]⟩
    have hrest : rest = rest.takeWhile isSubpathChar ++ refText (ref.map String.ofList) := by
      rw [← refPart_eq_some href, List.takeWhile_append_dropWhile]
    simpa [Parts.path, Parts.tail, ← hrest] using hcs
  · obtain ⟨ref, href, rfl⟩ := Option.map_eq_some_iff.mp h
    refine ⟨?_, howner, hrepo, by simp, by simp⟩
    rw [hcs, refPart_eq_some href]
    simp [Parts.path, Parts.tail]

lemma Parts.IsRead.at_notMem_path (h : p.IsRead cs) : '@' ∉ p.path := by
  have htail : '@' ∉ p.tail := by
    rw [tail]
    cases hsub : p.subpath with
    | none => simp
    | some sub => simpa using h.subpath sub hsub
  simp [path, h.owner.2.2, h.repo.2.2, htail]

lemma Parts.IsRead.isPath (h : p.IsRead cs) : IsPath p.path p.owner p.repo p.tail where
  eq := rfl
  owner_ne := h.owner.1
  owner := h.owner.2.1
  repo_ne := h.repo.1
  repo := h.repo.2.1
  tail := by
    rw [tail]
    cases p.subpath <;> simp

lemma Parts.IsRead.count_at (h : p.IsRead cs) :
    cs.count '@' ≤ 1 ↔ ∀ ref ∈ p.ref, '@' ∉ ref := by
  have hpath : p.path.count '@' = 0 := List.count_eq_zero.mpr h.at_notMem_path
  rw [h.eq, List.count_append, hpath, Nat.zero_add]
  cases p.ref with
  | none => simp [refText]
  | some ref => simp [refText, List.count_eq_zero]

/-- With one at sign the clause of the same text has the same parts. -/
lemma Parts.IsRead.ofChars?_eq (h : p.IsRead cs) (href : ∀ ref ∈ p.ref, '@' ∉ ref) :
    RepositoryUses.ofChars? cs =
      some (RepositoryUses.ofParts p.owner p.repo p.tail p.ref) := by
  refine RepositoryUses.ofChars?_of_isPath ?_ h.isPath
  have heq := h.eq
  cases hr : p.ref with
  | none =>
    obtain rfl : cs = p.path := by simpa [hr, refText] using heq
    exact ⟨rfl, h.at_notMem_path⟩
  | some ref => exact ⟨by simpa [hr, refText] using heq, href ref hr⟩

lemma subpath_ofParts_eq_iff (hne : sub ≠ []) {owner repo : List Char} :
    (RepositoryUses.ofParts owner repo ('/' :: sub) ref).subpath = some (String.ofList sub) ↔
      trimSlashes sub = sub := by
  rw [RepositoryUses.ofParts, RepositoryUses.trimSlashes_cons]
  split
  · next hempty => simp [List.isEmpty_iff.mp hempty, hne.symm]
  · simp [String.ofList_inj]

/-! ### Acceptance -/

lemma accepts_iff_isMetBy (h : ofParts? p = some pattern) :
    pattern.accepts u = true ↔ p.IsMetBy u := by
  obtain ⟨owner, repo, subpath, ref⟩ := p
  unfold ofParts? at h
  dsimp only at h
  split at h <;> cases h <;> simp_all [Parts.IsMetBy, accepts, sameRepo, and_assoc]

/-- Behind a star for the repository nothing is left to ask. -/
lemma star_of_ofParts? (h : ofParts? p = some pattern) :
    (p.repo = ['*'] → p.subpath = none ∧ p.ref = none) ∧
      (p.subpath = some ['*'] → p.ref = none) := by
  obtain ⟨owner, repo, subpath, ref⟩ := p
  unfold ofParts? at h
  dsimp only at h
  split at h <;> cases h <;> simp_all

/-- What accepts any clause at all has parts that a clause can have. -/
lemma Parts.IsMetBy.isUsable (hstar : p.repo = ['*'] → p.subpath = none ∧ p.ref = none)
    (hu : u.IsWellFormed) (h : p.IsMetBy u) : p.IsUsable := by
  constructor
  · intro sub hsub
    by_cases hs : sub = ['*']
    · rw [hs]
      rfl
    · have hrepo : p.repo ≠ ['*'] := by
        intro hr
        rw [(hstar hr).1] at hsub
        cases hsub
      have heq : u.subpath = some (String.ofList sub) := by
        rw [(h.2.1 hrepo).2 (by rw [hsub]; simpa using hs), hsub]
        rfl
      have hends := hu.endsOutside
      rw [subpathText, heq, Option.getD_some, String.toList_ofList] at hends
      exact Text.between_self hends
  · intro ref href hat
    exact hu.ref _ (h.2.2 ref href) (by simpa using hat)

lemma Parts.IsRead.isMetBy (h : p.IsRead cs) (husable : p.IsUsable)
    (hu : RepositoryUses.ofChars? cs = some u) : p.IsMetBy u := by
  rw [h.ofChars?_eq husable.ref] at hu
  obtain rfl := Option.some.inj hu
  refine ⟨Text.sameIgnoringCase_self _, fun _ => ⟨Text.sameIgnoringCase_self _, fun _ => ?_⟩, ?_⟩
  · cases hsub : p.subpath with
    | none => simp [tail, hsub, RepositoryUses.ofParts, trimSlashes]
    | some sub =>
      have hne : sub ≠ [] := fun hnil => h.subpath_ne (hnil ▸ hsub)
      rw [tail, hsub, Option.elim_some, Option.map_some, subpath_ofParts_eq_iff hne]
      exact husable.subpath sub hsub
  · intro ref href
    simp [RepositoryUses.ofParts, Option.mem_def.mp href]

lemma toList_display_ofParts {owner repo tail : List Char} :
    (RepositoryUses.ofParts owner repo tail ref).display.toList =
      owner ++ '/' :: (repo ++ ((if trimSlashes tail = [] then [] else '/' :: trimSlashes tail))) ++
        refText (ref.map String.ofList) := by
  have hfront : (RepositoryUses.ofParts owner repo tail ref).subpath = none ↔
      trimSlashes tail = [] := by
    rw [RepositoryUses.ofParts]
    split
    · next h => exact iff_of_true rfl (List.isEmpty_iff.mp h)
    · next h => exact iff_of_false (by simp) (by simpa using h)
  rw [RepositoryUses.toList_display, RepositoryUses.spelled, RepositoryUses.subpathText_ofParts]
  simp only [hfront]
  by_cases hempty : trimSlashes tail = [] <;> simp [RepositoryUses.ofParts, hempty]

/-- The parts are usable if the clause of the text is displayed by it, and it has one at sign. -/
lemma Parts.IsRead.isUsable_iff (h : p.IsRead s.toList)
    (hu : RepositoryUses.ofChars? s.toList = some u) :
    p.IsUsable ↔ u.display = s ∧ s.toList.count '@' ≤ 1 := by
  have hparts : p.IsUsable ↔
      (∀ sub ∈ p.subpath, trimSlashes sub = sub) ∧ ∀ ref ∈ p.ref, '@' ∉ ref :=
    ⟨fun h => ⟨h.subpath, h.ref⟩, fun h => ⟨h.1, h.2⟩⟩
  rw [hparts, h.count_at]
  refine and_congr_left fun href => ?_
  rw [h.ofChars?_eq href] at hu
  obtain rfl := Option.some.inj hu
  rw [← String.toList_inj, toList_display_ofParts, h.eq, path, List.append_left_inj,
    List.append_right_inj, List.cons.injEq, and_iff_right rfl, List.append_right_inj, tail]
  cases hsub : p.subpath with
  | none => simp [trimSlashes]
  | some sub =>
    have hne : sub ≠ [] := fun hnil => h.subpath_ne (hnil ▸ hsub)
    rw [Option.elim_some, RepositoryUses.trimSlashes_cons]
    by_cases hempty : trimSlashes sub = []
    · simp [hempty, hne.symm]
    · simp [hempty]

/-! ### Patterns spelled like clauses -/

lemma exists_isRead_of_parse (hp : parse s = .ok pattern) (hs : s ≠ "*") :
    ∃ p, p.IsRead s.toList ∧ ofParts? p = some pattern := by
  rw [parse, if_neg hs] at hp
  split at hp
  · next pattern' hread =>
    obtain rfl := Except.ok.inj hp
    obtain ⟨p, hp, hpattern⟩ := Option.bind_eq_some_iff.mp hread
    exact ⟨p, isRead_of_parts? hp, hpattern⟩
  · cases hp

lemma star_not_clause : RepositoryUses.parse "*" = .error ⟨"*"⟩ := by decide

/-- A pattern accepts the clause that is read from its own text just when this text is the display
of the clause and has one at sign at most, and then it has a say wherever a configuration names it.
A pattern that does not accept its own clause accepts no clause. -/
theorem own_clause_accepted_iff (hp : parse s = .ok pattern) (hu : RepositoryUses.parse s = .ok u) :
    (pattern.accepts u = true ↔ u.display = s ∧ s.toList.count '@' ≤ 1) ∧
      (pattern.accepts u = true ↔
        ∃ s' u', RepositoryUses.parse s' = .ok u' ∧ pattern.accepts u' = true) ∧
      ∀ c : Configuration, u.display = s → s.toList.count '@' ≤ 1 →
        (pattern ∈ c.safeActions →
          acceptedByAny (Tables.ofConfiguration c).safeActions u = true) ∧
        (pattern ∈ c.permissionCheckActions →
          acceptedByAny (Tables.ofConfiguration c).permissionCheckActions u = true) := by
  have hs : s ≠ "*" := by
    rintro rfl
    rw [star_not_clause] at hu
    cases hu
  obtain ⟨p, hread, hpattern⟩ := exists_isRead_of_parse hp hs
  have huChars := RepositoryUses.parse_eq_ok_iff.mp hu
  have hown : p.IsUsable → pattern.accepts u = true :=
    fun h => (accepts_iff_isMetBy hpattern).mpr (hread.isMetBy h huChars)
  have hany {s' : String} {u' : RepositoryUses} (hu' : RepositoryUses.parse s' = .ok u')
      (h : pattern.accepts u' = true) : p.IsUsable := by
    have hwell := (RepositoryUses.ofChars?_eq_some_iff.mp (RepositoryUses.parse_eq_ok_iff.mp hu')).1
    exact ((accepts_iff_isMetBy hpattern).mp h).isUsable (star_of_ofParts? hpattern).1 hwell
  refine ⟨?_, ⟨fun h => ⟨s, u, hu, h⟩, fun ⟨_, _, hu', h⟩ => hown (hany hu' h)⟩, ?_⟩
  · rw [← hread.isUsable_iff huChars]
    exact ⟨hany hu, hown⟩
  · intro c hdisplay hcount
    have haccepts := hown ((hread.isUsable_iff huChars).mpr ⟨hdisplay, hcount⟩)
    have hmem {patterns builtIn : List UsesPattern} (h : pattern ∈ patterns) :
        acceptedByAny (builtIn ++ patterns) u = true :=
      List.any_eq_true.mpr ⟨pattern, List.mem_append_right _ h, haccepts⟩
    exact ⟨hmem, hmem⟩

theorem nested_action_accepted :
    let pattern := exactWithRef "acme" "tools" (some "ci//setup") "release/v1"
    let u : RepositoryUses := ⟨"acme", "tools", some "ci//setup", some "release/v1"⟩
    parse "acme/tools/ci//setup@release/v1" = .ok pattern ∧
      RepositoryUses.parse "acme/tools/ci//setup@release/v1" = .ok u ∧
      pattern.accepts u = true ∧
      acceptedByAny
        (Tables.ofConfiguration { Configuration.default with safeActions := [pattern] }).safeActions
        u = true := by
  intro pattern u
  have hp : parse "acme/tools/ci//setup@release/v1" = .ok pattern := by decide +kernel
  have hu : RepositoryUses.parse "acme/tools/ci//setup@release/v1" = .ok u := by decide +kernel
  have hdisplay : u.display = "acme/tools/ci//setup@release/v1" := by decide +kernel
  obtain ⟨howns, -, htables⟩ := own_clause_accepted_iff hp hu
  exact ⟨hp, hu, howns.mpr ⟨hdisplay, by decide +kernel⟩,
    (htables _ hdisplay (by decide +kernel)).1 (List.mem_singleton_self pattern)⟩

/-- A slash behind the subpath stays with the pattern, which so accepts nothing. -/
theorem trailing_slash_not_accepted :
    parse "acme/tools/setup/@v1" = .ok (.exactWithRef "acme" "tools" (some "setup/") "v1") ∧
      RepositoryUses.parse "acme/tools/setup/@v1" = .ok ⟨"acme", "tools", some "setup", some "v1"⟩ ∧
      (exactWithRef "acme" "tools" (some "setup/") "v1").accepts
        ⟨"acme", "tools", some "setup", some "v1"⟩ = false := by
  decide +kernel

end WorkflowAudit.UsesPattern
