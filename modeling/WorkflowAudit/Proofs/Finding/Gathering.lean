import Mathlib.Data.List.Induction
import Mathlib.Data.List.Sort
import WorkflowAudit.Proofs.Finding.Aggregation

/-! Findings that are gathered, one by one or a whole collection at once. What is gathered depends
on the findings alone, in the order in which they come in: each key keeps its place and the first of
its surest findings. -/

namespace WorkflowAudit

/-! ### Lists without their repetitions -/

section EraseDups

variable {α : Type} [BEq α] [LawfulBEq α]

lemma eraseDups_concat (l : List α) (a : α) :
    (l ++ [a]).eraseDups = if a ∈ l then l.eraseDups else l.eraseDups ++ [a] := by
  rw [List.eraseDups_append, List.removeAll]
  by_cases h : a ∈ l <;> simp [h, List.eraseDups_cons]

lemma nodup_eraseDups (l : List α) : l.eraseDups.Nodup := by
  induction l using List.reverseRecOn with
  | nil => exact List.nodup_nil
  | append_singleton l a ih =>
    rw [eraseDups_concat]
    split
    · exact ih
    · next h =>
      rw [← List.concat_eq_append]
      exact List.Nodup.concat (mt List.mem_eraseDups.mp h) ih

/-- Repetitions that are left out beforehand make no difference. -/
lemma eraseDups_append_eraseDups (l l' : List α) :
    (l ++ l'.eraseDups).eraseDups = (l ++ l').eraseDups := by
  induction l' using List.reverseRecOn with
  | nil => rfl
  | append_singleton l' a ih =>
    rw [eraseDups_concat, ← List.append_assoc, eraseDups_concat]
    by_cases h : a ∈ l'
    · rw [if_pos h, if_pos (List.mem_append_right l h), ih]
    · rw [if_neg h, ← List.append_assoc, eraseDups_concat, ih]
      simp only [List.mem_append, List.mem_eraseDups]

end EraseDups

namespace Finding

/-- What at most one finding is kept of: a kind of finding about a step, under a repository. -/
def key (f : Finding) : String × String × String := (f.repo, f.kind, f.stepName)

variable {f g : Finding} {fs : List Finding} {repo kind step : String}

lemma key_eq_iff : f.key = (repo, kind, step) ↔ f.repo = repo ∧ f.isAbout kind step = true := by
  simp [key, isAbout]

lemma concerns_iff (hrepo : f.repo = g.repo) : f.concerns g = true ↔ f.key = g.key := by
  simp [concerns, key, hrepo]

lemma surest?_eq_some_iff :
    surest? fs = some f ↔ ∃ before after, fs = before ++ f :: after ∧
      (∀ g ∈ before, g.confidence.rank < f.confidence.rank) ∧
      ∀ g ∈ after, g.confidence.rank ≤ f.confidence.rank := by
  constructor
  · intro h
    obtain ⟨hmax, before, after, hfs, hbefore⟩ := exists_of_surest? h
    exact ⟨before, after, hfs, hbefore, fun g hg => hmax g (by simp [hfs, hg])⟩
  · rintro ⟨before, after, rfl, hbefore, hafter⟩
    cases hf : f.confidence with
    | medium =>
      rw [hf] at hbefore hafter
      obtain rfl : before = [] :=
        List.eq_nil_iff_forall_not_mem.mpr fun g hg => Nat.not_lt_zero _ (hbefore g hg)
      have hnone : (f :: after).find? (·.confidence = .high) = none := by
        refine List.find?_eq_none.mpr fun g hg => ?_
        have hle : g.confidence.rank ≤ Confidence.medium.rank := by
          rcases List.mem_cons.mp hg with rfl | hg
          · rw [hf]
          · exact hafter g hg
        cases hc : g.confidence with
        | medium => simp
        | high => simp [hc, Confidence.rank] at hle
      rw [surest?, List.nil_append, hnone]
      rfl
    | high =>
      have hnone : before.find? (·.confidence = .high) = none := by
        refine List.find?_eq_none.mpr fun g hg => ?_
        have hlt := hbefore g hg
        cases hc : g.confidence with
        | medium => simp
        | high => simp [hc, hf] at hlt
      rw [surest?, List.find?_append, hnone, Option.none_or, List.find?_cons_of_pos (by simp [hf])]
      rfl

/-- The first of the surest findings of its key. -/
def IsFirstSurest (fs : List Finding) (f : Finding) : Prop :=
  ∃ before after, fs = before ++ f :: after ∧
    (∀ g ∈ before, g.key = f.key → g.confidence.rank < f.confidence.rank) ∧
    ∀ g ∈ after, g.key = f.key → g.confidence.rank ≤ f.confidence.rank

lemma surest?_filter_key_iff :
    surest? (fs.filter (·.key = f.key)) = some f ↔ IsFirstSurest fs f := by
  rw [surest?_eq_some_iff]
  constructor
  · rintro ⟨front, back, hfs, hfront, hback⟩
    obtain ⟨l₁, l₂, rfl, rfl, h₂⟩ := List.filter_eq_append_iff.mp hfs
    obtain ⟨l₃, l₄, rfl, h₃, -, rfl⟩ := List.filter_eq_cons_iff.mp h₂
    -- Between the findings ahead of it of the same key and itself stand those of other keys, `l₃`.
    refine ⟨l₁ ++ l₃, l₄, (List.append_assoc _ _ _).symm, fun g hg hkey => ?_, fun g hg hkey => ?_⟩
    · rcases List.mem_append.mp hg with hg | hg
      · exact hfront g (List.mem_filter.mpr ⟨hg, decide_eq_true hkey⟩)
      · exact absurd (decide_eq_true hkey) (h₃ g hg)
    · exact hback g (List.mem_filter.mpr ⟨hg, decide_eq_true hkey⟩)
  · rintro ⟨before, after, rfl, hbefore, hafter⟩
    refine ⟨before.filter (·.key = f.key), after.filter (·.key = f.key), by simp, ?_, ?_⟩
    · intro g hg
      obtain ⟨hg, hkey⟩ := List.mem_filter.mp hg
      exact hbefore g hg (of_decide_eq_true hkey)
    · intro g hg
      obtain ⟨hg, hkey⟩ := List.mem_filter.mp hg
      exact hafter g hg (of_decide_eq_true hkey)

lemma IsFirstSurest.mem (h : IsFirstSurest fs f) : f ∈ fs := by
  obtain ⟨before, after, rfl, -⟩ := h
  exact List.mem_append_right before List.mem_cons_self

lemma IsFirstSurest.rank_le (h : IsFirstSurest fs f) (hg : g ∈ fs) (hkey : g.key = f.key) :
    g.confidence.rank ≤ f.confidence.rank := by
  obtain ⟨before, after, rfl, hbefore, hafter⟩ := h
  rcases List.mem_append.mp hg with hg | hg
  · exact (hbefore g hg hkey).le
  · rcases List.mem_cons.mp hg with rfl | hg
    · exact le_rfl
    · exact hafter g hg hkey

lemma exists_isFirstSurest (h : f ∈ fs) : ∃ g, IsFirstSurest fs g ∧ g.key = f.key := by
  have hf : f ∈ fs.filter (·.key = f.key) := List.mem_filter.mpr ⟨h, decide_eq_true rfl⟩
  obtain ⟨g, hg⟩ := exists_surest? hf
  have hkey : g.key = f.key := by
    obtain ⟨_, before, after, hsplit, -⟩ := exists_of_surest? hg
    have hmem : g ∈ fs.filter (·.key = f.key) := by simp [hsplit]
    exact of_decide_eq_true (List.mem_filter.mp hmem).2
  rw [← hkey] at hg
  exact ⟨g, surest?_filter_key_iff.mp hg, hkey⟩

end Finding

lemma Confidence.rank_injective : Function.Injective rank := by
  intro c d h
  cases c <;> cases d <;> first | rfl | cases h

namespace Findings

open Finding

variable {r r' : Findings} {f g : Finding} {fs gs : List Finding} {repo : String}

/-! ### Keys in the order in which they come in -/

lemma map_key_put (hrepo : ∀ g ∈ fs, g.repo = f.repo) :
    (put f fs).map key =
      if f.key ∈ fs.map key then fs.map key else fs.map key ++ [f.key] := by
  induction fs with
  | nil => rfl
  | cons g rest ih =>
    obtain ⟨hg, hrest⟩ := List.forall_mem_cons.mp hrepo
    have hsame : f.concerns g = true ↔ f.key = g.key := concerns_iff hg.symm
    rw [put]
    by_cases hc : f.concerns g = true
    · have hmem : f.key ∈ (g :: rest).map key := by
        rw [hsame.mp hc]
        exact List.mem_cons_self
      rw [if_pos hc, if_pos hmem]
      split
      · rw [List.map_cons, List.map_cons, hsame.mp hc]
      · rfl
    · have hmem : f.key ∈ (g :: rest).map key ↔ f.key ∈ rest.map key :=
        List.mem_cons.trans (or_iff_right (mt hsame.mpr hc))
      rw [if_neg hc, List.map_cons, ih hrest]
      by_cases hrest : f.key ∈ rest.map key
      · rw [if_pos hrest, if_pos (hmem.mpr hrest), List.map_cons]
      · rw [if_neg hrest, if_neg (mt hmem.mp hrest), List.map_cons, List.cons_append]

lemma put_ne_nil (f : Finding) (fs : List Finding) : put f fs ≠ [] := by
  cases fs with
  | nil => exact List.cons_ne_nil _ _
  | cons g rest =>
    rw [put]
    split <;> exact List.cons_ne_nil _ _

/-- Each finding stands under its own repository, and no repository is empty. -/
def IsFiled (r : Findings) : Prop := ∀ e ∈ r.entries, e.2 ≠ [] ∧ ∀ f ∈ e.2, f.repo = e.1

lemma IsFiled.push (h : r.IsFiled) (f : Finding) : (r.push f).IsFiled := by
  intro e he
  rcases mem_or_eq_of_mem_pushEntry he with he | ⟨fs, rfl, hfs⟩
  · exact h e he
  · refine ⟨put_ne_nil f fs, fun g hg => ?_⟩
    rcases mem_put hg with rfl | hg
    · rfl
    · rcases hfs with rfl | hfs
      · cases hg
      · exact (h _ hfs).2 g hg

lemma isFiled_ofList (fs : List Finding) : (ofList fs).IsFiled :=
  List.foldlRecOn (motive := IsFiled) fs push (fun _ h => absurd h List.not_mem_nil)
    fun _ h f _ => h.push f

lemma IsFiled.repo_eq (h : r.IsFiled) (hf : f ∈ r.under repo) : f.repo = repo := by
  rw [under, Assoc.get?] at hf
  cases he : r.entries.find? (·.1 = repo) with
  | none => simp [he] at hf
  | some e =>
    have hkey : e.1 = repo := by simpa using List.find?_some he
    rw [he] at hf
    exact ((h e (List.mem_of_find?_eq_some he)).2 f hf).trans hkey

lemma map_key_under_ofList (fs : List Finding) (repo : String) :
    ((ofList fs).under repo).map key = ((fs.filter (·.repo = repo)).map key).eraseDups := by
  induction fs using List.reverseRecOn with
  | nil => rfl
  | append_singleton fs f ih =>
    have hpush : ofList (fs ++ [f]) = (ofList fs).push f := List.foldl_concat _ _ _ _
    rw [hpush, under_push (isSorted_ofList fs), List.filter_append, List.filter_singleton]
    by_cases hr : f.repo = repo
    · have hfiled : ∀ g ∈ (ofList fs).under repo, g.repo = f.repo := fun g hg =>
        ((isFiled_ofList fs).repo_eq hg).trans hr.symm
      rw [if_pos hr, map_key_put hfiled, ih, decide_eq_true hr, cond_true, List.map_append,
        List.map_singleton, eraseDups_concat]
      simp only [List.mem_eraseDups]
    · rw [if_neg hr, ih, decide_eq_false hr, cond_false, List.append_nil]

/-! ### What is kept of each key -/

lemma filter_key_under_ofList (fs : List Finding) (repo kind step : String) :
    ((ofList fs).under repo).filter (·.key = (repo, kind, step)) =
      (surest? (fs.filter (·.key = (repo, kind, step)))).toList := by
  simp only [key_eq_iff, Bool.decide_and, Bool.decide_eq_true]
  rw [← filter_under_ofList]
  refine List.filter_congr fun f hf => ?_
  rw [decide_eq_true ((isFiled_ofList fs).repo_eq hf), Bool.true_and]

lemma mem_under_ofList_iff : f ∈ (ofList fs).under f.repo ↔ IsFirstSurest fs f := by
  have hkept : f ∈ ((ofList fs).under f.repo).filter (·.key = f.key) ↔
      f ∈ (surest? (fs.filter (·.key = f.key))).toList := by
    rw [key, filter_key_under_ofList]
  rw [← surest?_filter_key_iff, ← Option.mem_toList, ← hkept, List.mem_filter]
  exact (and_iff_left (decide_eq_true rfl)).symm

lemma exists_mem_under_iff (fs : List Finding) (k : String × String × String) :
    (∃ f ∈ (ofList fs).under k.1, f.key = k) ↔ ∃ f ∈ fs, f.key = k := by
  constructor
  · rintro ⟨f, hf, rfl⟩
    exact ⟨f, (mem_under_ofList_iff.mp hf).mem, rfl⟩
  · rintro ⟨f, hf, rfl⟩
    obtain ⟨g, hg, hkey⟩ := exists_isFirstSurest hf
    rw [← hkey]
    exact ⟨g, mem_under_ofList_iff.mpr hg, rfl⟩

/-- The confidence that is kept of a key is the highest one, wherever it came in. -/
lemma exists_confidence_iff (fs : List Finding) (k : String × String × String) (c : Confidence) :
    (∃ f ∈ (ofList fs).under k.1, f.key = k ∧ f.confidence = c) ↔
      (∃ f ∈ fs, f.key = k ∧ f.confidence = c) ∧
        ∀ f ∈ fs, f.key = k → f.confidence.rank ≤ c.rank := by
  constructor
  · rintro ⟨f, hf, rfl, rfl⟩
    have hfirst := mem_under_ofList_iff.mp hf
    exact ⟨⟨f, hfirst.mem, rfl, rfl⟩, fun g hg hkey => hfirst.rank_le hg hkey⟩
  · rintro ⟨⟨f, hf, rfl, rfl⟩, hmax⟩
    obtain ⟨g, hg, hkey⟩ := exists_isFirstSurest hf
    have hrank : g.confidence.rank = f.confidence.rank :=
      le_antisymm (hmax g hg.mem hkey) (hg.rank_le hf hkey.symm)
    have hunder := mem_under_ofList_iff.mpr hg
    rw [show g.repo = f.key.1 from congrArg Prod.fst hkey] at hunder
    exact ⟨g, hunder, hkey, Confidence.rank_injective hrank⟩

/-- What stands under a repository, put together from the findings that came in. -/
lemma under_ofList (fs : List Finding) (repo : String) :
    (ofList fs).under repo =
      ((fs.filter (·.repo = repo)).map key).eraseDups.filterMap
        fun k => surest? (fs.filter (·.key = k)) := by
  rw [← map_key_under_ofList, List.filterMap_map]
  have hself : ∀ f ∈ (ofList fs).under repo, surest? (fs.filter (·.key = f.key)) = some f := by
    intro f hf
    rw [← (isFiled_ofList fs).repo_eq hf] at hf
    exact surest?_filter_key_iff.mpr (mem_under_ofList_iff.mp hf)
  exact ((List.filterMap_congr hself).trans List.filterMap_some).symm

/-! ### Collections that are put together -/

lemma mem_entries_iff (hs : r.IsSorted) (hf : r.IsFiled) {e : String × List Finding} :
    e ∈ r.entries ↔ e.2 ≠ [] ∧ r.under e.1 = e.2 := by
  constructor
  · intro he
    refine ⟨(hf e he).1, ?_⟩
    obtain ⟨before, after, hsplit⟩ := List.append_of_mem he
    have hbefore : ∀ x ∈ before, ¬ x.1 = e.1 := by
      rw [IsSorted, hsplit, List.pairwise_append] at hs
      exact fun x hx => (hs.2.2 x hx e List.mem_cons_self).ne
    rw [under, Assoc.get?, hsplit, List.find?_append,
      List.find?_eq_none.mpr (by simpa using hbefore), Option.none_or,
      List.find?_cons_of_pos (by simp)]
    rfl
  · rintro ⟨hne, hunder⟩
    rw [under, Assoc.get?] at hunder
    cases hfind : r.entries.find? (·.1 = e.1) with
    | none =>
      rw [hfind] at hunder
      exact absurd hunder.symm hne
    | some e' =>
      have hkey : e'.1 = e.1 := by simpa using List.find?_some hfind
      rw [hfind] at hunder
      have heq : e' = e := Prod.ext hkey hunder
      exact heq ▸ List.mem_of_find?_eq_some hfind

/-- A collection is known by what stands under each repository. -/
lemma eq_of_under (hs : r.IsSorted) (hs' : r'.IsSorted) (hf : r.IsFiled) (hf' : r'.IsFiled)
    (h : ∀ repo, r.under repo = r'.under repo) : r = r' := by
  obtain ⟨es⟩ := r
  obtain ⟨es'⟩ := r'
  have hanti : Std.Antisymm fun a b : String × List Finding => a.1 < b.1 :=
    ⟨fun a b hab hba => absurd (lt_trans hab hba) (lt_irrefl _)⟩
  have hirrefl : Std.Irrefl fun a b : String × List Finding => a.1 < b.1 :=
    ⟨fun a => lt_irrefl a.1⟩
  refine congrArg Findings.mk (List.Pairwise.eq_of_mem_iff hs hs' fun e => ?_)
  rw [mem_entries_iff (r := ⟨es⟩) hs hf, mem_entries_iff (r := ⟨es'⟩) hs' hf', h]

lemma filter_repo_toList_ofList (fs : List Finding) (repo : String) :
    (ofList fs).toList.filter (·.repo = repo) = (ofList fs).under repo := by
  have hall := filter_toList (isSorted_ofList fs) (fun e he => (isFiled_ofList fs e he).2) repo
    fun _ => true
  simpa using hall

lemma filter_key_toList_ofList (fs : List Finding) (repo kind step : String) :
    (ofList fs).toList.filter (·.key = (repo, kind, step)) =
      (surest? (fs.filter (·.key = (repo, kind, step)))).toList := by
  rw [← filter_key_under_ofList, ← filter_repo_toList_ofList, List.filter_filter]
  refine List.filter_congr fun f _ => ?_
  by_cases hk : f.key = (repo, kind, step)
  · rw [decide_eq_true hk, decide_eq_true (key_eq_iff.mp hk).1]
    rfl
  · rw [decide_eq_false hk, Bool.false_and]

lemma surest?_append_surest? (fs gs : List Finding) :
    surest? (fs ++ (surest? gs).toList) = surest? (fs ++ gs) := by
  induction gs using List.reverseRecOn with
  | nil => rfl
  | append_singleton gs f ih =>
    rw [surest?_concat, ← List.append_assoc, surest?_concat, ← ih]
    cases hg : surest? gs with
    | none => simp [keepSurer, surest?_concat]
    | some g =>
      simp only [Option.toList_some, surest?_concat]
      cases surest? fs with
      | none => rfl
      | some x =>
        cases hx : x.confidence <;> cases hg : g.confidence <;> cases hf : f.confidence <;>
          simp [keepSurer, isSurer, hx, hg, hf]

/-- To put in what another collection has kept is to put in all that it was given. -/
lemma extend_ofList (fs gs : List Finding) :
    (ofList fs).extend (ofList gs) = ofList (fs ++ gs) := by
  have hextend : (ofList fs).extend (ofList gs) = ofList (fs ++ (ofList gs).toList) :=
    List.foldl_append.symm
  rw [hextend]
  refine eq_of_under (isSorted_ofList _) (isSorted_ofList _) (isFiled_ofList _) (isFiled_ofList _)
    fun repo => ?_
  have hkeys : ((fs ++ (ofList gs).toList).filter (·.repo = repo)).map key =
      (fs.filter (·.repo = repo)).map key ++ ((gs.filter (·.repo = repo)).map key).eraseDups := by
    rw [List.filter_append, filter_repo_toList_ofList, List.map_append, map_key_under_ofList]
  rw [under_ofList, under_ofList, hkeys, eraseDups_append_eraseDups, ← List.map_append,
    ← List.filter_append]
  refine List.filterMap_congr fun k _ => ?_
  rw [List.filter_append, filter_key_toList_ofList, surest?_append_surest?, List.filter_append]

/-- How findings are gathered, and which ones in which order. -/
inductive Gathers : Findings → List Finding → Prop where
  | empty : Gathers empty []
  | push {r : Findings} {fs : List Finding} (f : Finding) (h : Gathers r fs) :
    Gathers (r.push f) (fs ++ [f])
  | extend {r r' : Findings} {fs gs : List Finding} (h : Gathers r fs) (h' : Gathers r' gs) :
    Gathers (r.extend r') (fs ++ gs)

lemma Gathers.eq_ofList (h : Gathers r fs) : r = ofList fs := by
  induction h with
  | empty => rfl
  | push f _ ih => rw [ih, ofList, ofList, List.foldl_concat]
  | extend _ _ ih ih' => rw [ih, ih', extend_ofList]

lemma gathers_ofList (fs : List Finding) : (ofList fs).Gathers fs := by
  induction fs using List.reverseRecOn with
  | nil => exact .empty
  | append_singleton fs f ih =>
    rw [ofList, List.foldl_concat]
    exact .push f ih

/-- What a collection holds of the findings that came in. Their keys stand in the order in which
each came in first, and a key has one finding, the first of its surest ones. -/
structure KeepsFirstSurest (r : Findings) (fs : List Finding) : Prop where
  isSorted : r.IsSorted
  isFiled : r.IsFiled
  once : ∀ repo, ((r.under repo).map key).Nodup
  inOrder : ∀ repo, (r.under repo).map key = ((fs.filter (·.repo = repo)).map key).eraseDups
  exists_iff : ∀ k, (∃ f ∈ r.under k.1, f.key = k) ↔ ∃ f ∈ fs, f.key = k
  mem_iff : ∀ f, f ∈ r.under f.repo ↔ IsFirstSurest fs f

/-- However findings are gathered, a collection keeps the first of the surest findings of each key,
and which confidence it has for a key is the same in whatever order they came in. -/
theorem gathered_keep_first_surest (h : r.Gathers fs) :
    r.KeepsFirstSurest fs ∧ ∀ (r' : Findings) (fs' : List Finding), r'.Gathers fs' → fs.Perm fs' →
      ∀ k c, (∃ f ∈ r.under k.1, f.key = k ∧ f.confidence = c) ↔
        ∃ f ∈ r'.under k.1, f.key = k ∧ f.confidence = c := by
  obtain rfl := h.eq_ofList
  refine ⟨?_, fun r' fs' h' hperm k c => ?_⟩
  · exact
      { isSorted := isSorted_ofList fs
        isFiled := isFiled_ofList fs
        once := fun repo => by
          rw [map_key_under_ofList]
          exact nodup_eraseDups _
        inOrder := map_key_under_ofList fs
        exists_iff := exists_mem_under_iff fs
        mem_iff := fun _ => mem_under_ofList_iff }
  · obtain rfl := h'.eq_ofList
    rw [exists_confidence_iff, exists_confidence_iff]
    simp only [hperm.mem_iff]

def greeting (step : String) (c : Confidence) : Finding where
  repo := "acme/widgets"
  workflow := "greet.yml"
  job := some "greet"
  step := "echo"
  stepName := step
  triggers := ["issues"]
  confidence := c
  selfHosted := false
  path := []
  details := .injection [⟨"github.head_ref", .direct, none⟩]

/-- A surer finding about the first of two steps comes in with another collection: it takes the
place of the first one, and is kept as well when that collection comes first. -/
theorem surer_greeting_kept :
    let fs := [greeting "a" .medium, greeting "b" .medium]
    let gs := [greeting "a" .high]
    let r := (ofList fs).extend (ofList gs)
    let r' := (ofList gs).extend (ofList fs)
    r.Gathers (fs ++ gs) ∧ r'.Gathers (gs ++ fs) ∧ (fs ++ gs).Perm (gs ++ fs) ∧
      greeting "a" .high ∈ r.under "acme/widgets" ∧
      (r.under "acme/widgets").map (·.stepName) = ["a", "b"] ∧
      ∃ f ∈ r'.under "acme/widgets", f.key = ("acme/widgets", "injection", "a") ∧
        f.confidence = .high := by
  intro fs gs r r'
  have hr : r.Gathers (fs ++ gs) := (gathers_ofList fs).extend (gathers_ofList gs)
  have hr' : r'.Gathers (gs ++ fs) := (gathers_ofList gs).extend (gathers_ofList fs)
  obtain ⟨hkeeps, hconfidence⟩ := gathered_keep_first_surest hr
  have hmem : greeting "a" .high ∈ r.under "acme/widgets" := by
    refine (hkeeps.mem_iff (greeting "a" .high)).mpr ⟨fs, [], rfl, ?_, by simp⟩
    simp [fs, greeting, key, Finding.kind, Details.kind, Confidence.rank]
  have horder : (r.under "acme/widgets").map (·.stepName) = ["a", "b"] := by
    have hkeys := congrArg (List.map (·.2.2)) (hkeeps.inOrder "acme/widgets")
    rw [List.map_map] at hkeys
    exact hkeys.trans (by decide)
  exact ⟨hr, hr', List.perm_append_comm, hmem, horder,
    (hconfidence r' _ hr' List.perm_append_comm ("acme/widgets", "injection", "a") .high).mp
      ⟨_, hmem, rfl, rfl⟩⟩

end Findings

end WorkflowAudit
