import Mathlib.Data.List.Basic
import Mathlib.Data.String.Basic
import WorkflowAudit.Assoc
import WorkflowAudit.Finding.Collection

/-! Of the findings of one kind about a step that are put under a repository, the first one with
the highest confidence is kept, and nothing else. -/

namespace WorkflowAudit

def Confidence.rank : Confidence → Nat
  | .medium => 0
  | .high => 1

namespace Finding

def isAbout (kind step : String) (f : Finding) : Bool := f.kind = kind && f.stepName = step

/-- The first finding with the highest confidence. -/
def surest? (fs : List Finding) : Option Finding := fs.find? (·.confidence = .high) <|> fs.head?

def keepSurer (f : Finding) : Option Finding → Finding
  | none => f
  | some g => if f.isSurer g then f else g

lemma concerns_eq_isAbout {kind step : String} {f : Finding} (h : f.isAbout kind step = true)
    (g : Finding) : f.concerns g = g.isAbout kind step := by
  simp only [isAbout, Bool.and_eq_true, decide_eq_true_eq] at h
  simp [concerns, isAbout, h.1, h.2, eq_comm]

lemma isAbout_of_concerns {kind step : String} {f g : Finding} (h : f.concerns g = true) :
    f.isAbout kind step = g.isAbout kind step := by
  simp only [concerns, Bool.and_eq_true, decide_eq_true_eq] at h
  simp [isAbout, h.1, h.2]

lemma confidence_eq_medium {f : Finding} (h : ¬ f.confidence = .high) : f.confidence = .medium := by
  cases hc : f.confidence with
  | medium => rfl
  | high => exact absurd hc h

lemma surest?_concat (fs : List Finding) (f : Finding) :
    surest? (fs ++ [f]) = some (f.keepSurer (surest? fs)) := by
  cases hf : fs.find? (·.confidence = .high) with
  | some g =>
    have hg : g.confidence = .high := by simpa using List.find?_some hf
    simp [surest?, hf, keepSurer, isSurer, hg]
  | none =>
    cases fs with
    | nil => by_cases hh : f.confidence = .high <;> simp [surest?, keepSurer, hh]
    | cons g rest =>
      have hg : g.confidence = .medium := by
        have := List.find?_eq_none.mp hf g (by simp)
        exact confidence_eq_medium (by simpa using this)
      rw [surest?, surest?, List.find?_append, hf]
      by_cases hh : f.confidence = .high <;> simp [keepSurer, isSurer, hh, hg]

lemma surest?_eq_none_iff (fs : List Finding) : surest? fs = none ↔ fs = [] := by
  cases fs with
  | nil => simp [surest?]
  | cons f rest => cases h : (f :: rest).find? (·.confidence = .high) <;> simp [surest?, h]

lemma exists_surest? {fs : List Finding} {f : Finding} (h : f ∈ fs) :
    ∃ f', surest? fs = some f' := by
  cases hs : surest? fs with
  | none => exact absurd ((surest?_eq_none_iff fs).mp hs ▸ h) List.not_mem_nil
  | some f' => exact ⟨f', rfl⟩

lemma exists_of_surest? {fs : List Finding} {f : Finding} (h : surest? fs = some f) :
    (∀ g ∈ fs, g.confidence.rank ≤ f.confidence.rank) ∧
      ∃ before after, fs = before ++ f :: after ∧
        ∀ g ∈ before, g.confidence.rank < f.confidence.rank := by
  cases hf : fs.find? (·.confidence = .high) with
  | some g =>
    obtain rfl : g = f := by simpa [surest?, hf] using h
    obtain ⟨hg, before, after, hfs, hb⟩ := List.find?_eq_some_iff_append.mp hf
    have hhigh : g.confidence = .high := by simpa using hg
    refine ⟨fun x _ => ?_, before, after, hfs, fun x hx => ?_⟩
    · cases hx : x.confidence <;> simp [hhigh, Confidence.rank]
    · rw [confidence_eq_medium (by simpa using hb x hx), hhigh]
      exact Nat.zero_lt_one
  | none =>
    obtain ⟨rest, hfs⟩ := List.head?_eq_some_iff.mp (by simpa [surest?, hf] using h)
    refine ⟨fun x hx => ?_, [], rest, hfs, by simp⟩
    rw [confidence_eq_medium (by simpa using List.find?_eq_none.mp hf x hx)]
    exact Nat.zero_le _

end Finding

namespace Findings

open Finding

/-- What stands under a repository. -/
def under (fs : Findings) (repo : String) : List Finding := (Assoc.get? repo fs.entries).getD []

lemma exists_entry_of_mem_under {fs : Findings} {repo : String} {f : Finding}
    (h : f ∈ fs.under repo) : ∃ e ∈ fs.entries, f ∈ e.2 := by
  rw [under, Assoc.get?] at h
  cases he : fs.entries.find? (·.1 = repo) with
  | none => simp [he] at h
  | some e => exact ⟨e, List.mem_of_find?_eq_some he, by simpa [he] using h⟩

def IsSorted (fs : Findings) : Prop := fs.entries.Pairwise fun a b => a.1 < b.1

lemma mem_put {f g : Finding} {fs : List Finding} (h : g ∈ put f fs) : g = f ∨ g ∈ fs := by
  induction fs with
  | nil => exact Or.inl (List.mem_singleton.mp h)
  | cons x rest ih =>
    rw [put] at h
    split at h
    · rcases List.mem_cons.mp h with rfl | h
      · split
        · exact Or.inl rfl
        · exact Or.inr (by simp)
      · exact Or.inr (List.mem_cons_of_mem _ h)
    · rcases List.mem_cons.mp h with rfl | h
      · exact Or.inr (by simp)
      · exact (ih h).imp_right (List.mem_cons_of_mem _)

lemma filter_put (kind step : String) (f : Finding) (fs : List Finding) :
    (put f fs).filter (isAbout kind step) =
      if f.isAbout kind step then
        f.keepSurer (fs.filter (isAbout kind step)).head? :: (fs.filter (isAbout kind step)).tail
      else fs.filter (isAbout kind step) := by
  induction fs with
  | nil => cases h : f.isAbout kind step <;> simp [put, keepSurer, h]
  | cons g rest ih =>
    cases hc : f.concerns g with
    | true =>
      have ha : f.isAbout kind step = g.isAbout kind step := isAbout_of_concerns hc
      cases hf : f.isAbout kind step with
      | true =>
        rw [hf] at ha
        cases hs : f.isSurer g <;> simp [put, hc, hs, hf, ← ha, keepSurer]
      | false =>
        rw [hf] at ha
        cases hs : f.isSurer g <;> simp [put, hc, hs, hf, ← ha]
    | false =>
      cases hf : f.isAbout kind step with
      | true =>
        have hg : g.isAbout kind step = false := (concerns_eq_isAbout hf g).symm.trans hc
        simpa [put, hc, hg, hf] using ih
      | false =>
        cases hg : g.isAbout kind step <;> simpa [put, hc, hg, hf] using ih

lemma mem_or_eq_of_mem_pushEntry {f : Finding} {es : List (String × List Finding)}
    {e : String × List Finding} (h : e ∈ pushEntry f es) :
    e ∈ es ∨ ∃ fs, e = (f.repo, put f fs) ∧ (fs = [] ∨ (f.repo, fs) ∈ es) := by
  induction es with
  | nil => exact Or.inr ⟨[], List.mem_singleton.mp h, Or.inl rfl⟩
  | cons x rest ih =>
    obtain ⟨repo, fs⟩ := x
    rw [pushEntry] at h
    split at h
    · next heq =>
      rcases List.mem_cons.mp h with rfl | h
      · exact Or.inr ⟨fs, by rw [heq], Or.inr (by simp [heq])⟩
      · exact Or.inl (List.mem_cons_of_mem _ h)
    · split at h
      · rcases List.mem_cons.mp h with rfl | h
        · exact Or.inr ⟨[], rfl, Or.inl rfl⟩
        · exact Or.inl h
      · rcases List.mem_cons.mp h with rfl | h
        · exact Or.inl List.mem_cons_self
        · exact (ih h).imp (List.mem_cons_of_mem _) fun ⟨fs, he, hfs⟩ =>
            ⟨fs, he, hfs.imp_right (List.mem_cons_of_mem _)⟩

lemma mem_pushEntry {f : Finding} {es : List (String × List Finding)} {e : String × List Finding}
    (h : e ∈ pushEntry f es) {g : Finding} (hg : g ∈ e.2) :
    (g = f ∧ e.1 = f.repo) ∨ ∃ e' ∈ es, e'.1 = e.1 ∧ g ∈ e'.2 := by
  rcases mem_or_eq_of_mem_pushEntry h with he | ⟨fs, rfl, hfs⟩
  · exact Or.inr ⟨e, he, rfl, hg⟩
  · rcases mem_put hg with rfl | hg
    · exact Or.inl ⟨rfl, rfl⟩
    · rcases hfs with rfl | hfs
      · exact absurd hg List.not_mem_nil
      · exact Or.inr ⟨_, hfs, rfl, hg⟩

lemma isSorted_push {fs : Findings} (h : fs.IsSorted) (f : Finding) : (fs.push f).IsSorted := by
  obtain ⟨es⟩ := fs
  simp only [IsSorted, push] at h ⊢
  induction es with
  | nil => exact List.pairwise_singleton _ _
  | cons x rest ih =>
    obtain ⟨repo, fs⟩ := x
    obtain ⟨hx, hrest⟩ := List.pairwise_cons.mp h
    rw [pushEntry]
    split
    · exact List.pairwise_cons.mpr ⟨hx, hrest⟩
    · next hne =>
      split
      · next hlt =>
        refine List.pairwise_cons.mpr ⟨fun e he => ?_, h⟩
        rcases List.mem_cons.mp he with rfl | he
        · exact hlt
        · exact lt_trans hlt (hx e he)
      · next hnlt =>
        refine List.pairwise_cons.mpr ⟨fun e he => ?_, ih hrest⟩
        rcases mem_or_eq_of_mem_pushEntry he with he | ⟨fs, rfl, -⟩
        · exact hx e he
        · exact lt_of_le_of_ne (not_lt.mp hnlt) (Ne.symm hne)

lemma under_push {fs : Findings} (h : fs.IsSorted) (f : Finding) (repo : String) :
    (fs.push f).under repo = if f.repo = repo then put f (fs.under repo) else fs.under repo := by
  obtain ⟨es⟩ := fs
  simp only [IsSorted, push, under] at h ⊢
  induction es with
  | nil => by_cases hr : f.repo = repo <;> simp [pushEntry, put, Assoc.get?, hr]
  | cons x rest ih =>
    obtain ⟨key, fs⟩ := x
    obtain ⟨hx, hrest⟩ := List.pairwise_cons.mp h
    rw [pushEntry]
    split
    · next heq =>
      by_cases hr : key = repo <;> simp [Assoc.get?, heq, hr]
    · next hne =>
      split
      · next hlt =>
        by_cases hr : f.repo = repo
        · have hnone : Assoc.get? repo ((key, fs) :: rest) = none := by
            simp only [Assoc.get?, Option.map_eq_none_iff, List.find?_eq_none]
            intro e he
            rcases List.mem_cons.mp he with rfl | he
            · simpa [← hr] using hlt.ne'
            · simpa [← hr] using (lt_trans hlt (hx e he)).ne'
          rw [hnone]
          simp [Assoc.get?, hr, put]
        · simp [Assoc.get?, hr]
      · by_cases hk : key = repo
        · rw [← hk]
          simp [Assoc.get?, hne]
        · have := ih hrest
          simpa [Assoc.get?, hk] using this

lemma isSorted_foldl_push {fs : Findings} (h : fs.IsSorted) (gs : List Finding) :
    (gs.foldl push fs).IsSorted := by
  induction gs generalizing fs with
  | nil => exact h
  | cons f gs ih => exact ih (isSorted_push h f)

lemma isSorted_empty : empty.IsSorted := List.Pairwise.nil

lemma isSorted_ofList (fs : List Finding) : (ofList fs).IsSorted :=
  isSorted_foldl_push isSorted_empty fs

lemma filter_under_push {fs : Findings} (h : fs.IsSorted) {repo kind step : String}
    {l : List Finding} (hl : (fs.under repo).filter (isAbout kind step) = (surest? l).toList)
    (f : Finding) :
    ((fs.push f).under repo).filter (isAbout kind step) =
      (surest? (l ++ [f].filter fun g => g.repo = repo && g.isAbout kind step)).toList := by
  rw [under_push h]
  by_cases hr : f.repo = repo
  · rw [if_pos hr, filter_put, hl]
    cases ha : f.isAbout kind step with
    | true => cases hs : surest? l <;> simp [hr, ha, surest?_concat, hs]
    | false => simp [ha]
  · simp [hr, hl]

/-- A run of pushes keeps what a single push keeps, the findings pushed before included. -/
lemma filter_under_foldl_push {fs : Findings} (h : fs.IsSorted) {repo kind step : String}
    {l : List Finding} (hl : (fs.under repo).filter (isAbout kind step) = (surest? l).toList)
    (gs : List Finding) :
    ((gs.foldl push fs).under repo).filter (isAbout kind step) =
      (surest? (l ++ gs.filter fun g => g.repo = repo && g.isAbout kind step)).toList := by
  induction gs generalizing fs l with
  | nil => simpa using hl
  | cons f gs ih =>
    rw [List.foldl_cons, ih (isSorted_push h f) (filter_under_push h hl f), List.append_assoc,
      ← List.filter_append, List.singleton_append]

lemma filter_under_ofList (fs : List Finding) (repo kind step : String) :
    ((ofList fs).under repo).filter (isAbout kind step) =
      (surest? (fs.filter fun f => f.repo = repo && f.isAbout kind step)).toList :=
  filter_under_foldl_push isSorted_empty (l := []) rfl fs

lemma mem_entries_foldl_push {fs : Findings} {gs : List Finding} {e : String × List Finding}
    (h : e ∈ (gs.foldl push fs).entries) {f : Finding} (hf : f ∈ e.2) :
    (f ∈ gs ∧ e.1 = f.repo) ∨ ∃ e' ∈ fs.entries, e'.1 = e.1 ∧ f ∈ e'.2 := by
  induction gs generalizing fs with
  | nil => exact Or.inr ⟨e, h, rfl, hf⟩
  | cons g gs ih =>
    rcases ih h with ⟨hm, hr⟩ | ⟨e', he', hr, hf'⟩
    · exact Or.inl ⟨List.mem_cons_of_mem _ hm, hr⟩
    · rcases mem_pushEntry he' hf' with ⟨rfl, heq⟩ | ⟨e'', he'', heq, hf''⟩
      · exact Or.inl ⟨by simp, hr.symm.trans heq⟩
      · exact Or.inr ⟨e'', he'', heq.trans hr, hf''⟩

lemma mem_entries_ofList {fs : List Finding} {e : String × List Finding}
    (h : e ∈ (ofList fs).entries) {f : Finding} (hf : f ∈ e.2) : f ∈ fs ∧ e.1 = f.repo := by
  rcases mem_entries_foldl_push h hf with hm | ⟨e', he', -⟩
  · exact hm
  · exact absurd he' List.not_mem_nil

lemma repo_eq_of_mem_entries_ofList {fs : List Finding} {e : String × List Finding}
    (h : e ∈ (ofList fs).entries) : ∀ f ∈ e.2, f.repo = e.1 :=
  fun _ hf => (mem_entries_ofList h hf).2.symm

lemma filter_toList {fs : Findings} (h : fs.IsSorted)
    (hrepo : ∀ e ∈ fs.entries, ∀ f ∈ e.2, f.repo = e.1) (repo : String) (q : Finding → Bool) :
    fs.toList.filter (fun f => f.repo = repo && q f) = (fs.under repo).filter q := by
  obtain ⟨es⟩ := fs
  simp only [IsSorted, toList, under] at h hrepo ⊢
  induction es with
  | nil => rfl
  | cons e rest ih =>
    obtain ⟨hlt, hrest⟩ := List.pairwise_cons.mp h
    rw [List.flatMap_cons, List.filter_append]
    by_cases hr : e.1 = repo
    · have hhere : e.2.filter (fun f => f.repo = repo && q f) = e.2.filter q :=
        List.filter_congr fun f hf => by simp [hrepo e (by simp) f hf, hr]
      have hthere : (rest.flatMap (·.2)).filter (fun f => f.repo = repo && q f) = [] := by
        refine List.filter_eq_nil_iff.mpr fun f hf => ?_
        obtain ⟨e', he', hf⟩ := List.mem_flatMap.mp hf
        have hne := (hlt e' he').ne'
        rw [hr, ← hrepo e' (List.mem_cons_of_mem _ he') f hf] at hne
        simp [hne]
      rw [hhere, hthere, List.append_nil]
      simp [Assoc.get?, hr]
    · have hhere : e.2.filter (fun f => f.repo = repo && q f) = [] := by
        refine List.filter_eq_nil_iff.mpr fun f hf => ?_
        simp [hrepo e (by simp) f hf, hr]
      rw [hhere, List.nil_append, ih hrest fun e' he' => hrepo e' (List.mem_cons_of_mem _ he')]
      simp [Assoc.get?, hr]

lemma mem_of_mem_toList_ofList {fs : List Finding} {f : Finding} (h : f ∈ (ofList fs).toList) :
    f ∈ fs := by
  obtain ⟨e, he, hf⟩ := List.mem_flatMap.mp h
  exact (mem_entries_ofList he hf).1

end Findings

end WorkflowAudit
