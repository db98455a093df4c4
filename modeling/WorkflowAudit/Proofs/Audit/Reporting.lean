import WorkflowAudit.Audit.Basic
import WorkflowAudit.Proofs.Audit.AttackPaths
import WorkflowAudit.Proofs.Finding.Aggregation

/-! Both finders report each step at most once under a repository, with the first of the surest
paths to it. -/

namespace WorkflowAudit.Audit

open Source (Knowledge)
open Finding (isAbout surest?)
open Findings (ofList)

/-- What is kept of the findings that the paths of a search give: one if there is any, namely the
first of those that no other one surpasses. -/
structure ReportsOnce (kept : List Finding) (search : List (List Nat))
    (Gives : List Nat → Finding → Prop) : Prop where
  exists_iff : (∃ f, f ∈ kept) ↔ ∃ p ∈ search, ∃ f, Gives p f
  once : kept.length ≤ 1
  surest : ∀ f ∈ kept, ∃ before p after, search = before ++ p :: after ∧ Gives p f ∧
    (∀ q ∈ search, ∀ h, Gives q h → h.confidence.rank ≤ f.confidence.rank) ∧
    ∀ q ∈ before, ∀ h, Gives q h → h.confidence.rank < f.confidence.rank

/-- Whether a finding is about a step and belongs under a repository. -/
def isOn (repo step : String) (f : Finding) : Bool := f.repo = repo && f.stepName = step

lemma reportsOnce_surest? {search : List (List Nat)} {give : List Nat → Option Finding}
    {Gives : List Nat → Finding → Prop}
    (h : ∀ p ∈ search, ∀ f, give p = some f ↔ Gives p f) :
    ReportsOnce (surest? (search.filterMap give)).toList search Gives := by
  refine ⟨?_, ?_, ?_⟩
  · constructor
    · rintro ⟨f, hf⟩
      obtain ⟨-, before, after, hfs, -⟩ := Finding.exists_of_surest? (Option.mem_toList.mp hf)
      have hm : f ∈ search.filterMap give := by simp [hfs]
      obtain ⟨p, hp, hg⟩ := List.mem_filterMap.mp hm
      exact ⟨p, hp, f, (h p hp f).mp hg⟩
    · rintro ⟨p, hp, f, hg⟩
      have hm : f ∈ search.filterMap give := List.mem_filterMap.mpr ⟨p, hp, (h p hp f).mpr hg⟩
      obtain ⟨f', hs⟩ := Finding.exists_surest? hm
      exact ⟨f', by simp [hs]⟩
  · cases surest? (search.filterMap give) <;> simp
  · intro f hf
    obtain ⟨hmax, before, after, hfs, hlt⟩ :=
      Finding.exists_of_surest? (Option.mem_toList.mp hf)
    -- Ahead of the path that gives the finding are those of lesser findings, and `l₃` without any.
    obtain ⟨l₁, l₂, rfl, h₁, h₂⟩ := List.filterMap_eq_append_iff.mp hfs
    obtain ⟨l₃, p, l₄, rfl, h₃, hp, -⟩ := List.filterMap_eq_cons_iff.mp h₂
    refine ⟨l₁ ++ l₃, p, l₄, (List.append_assoc _ _ _).symm, (h p (by simp) f).mp hp, ?_, ?_⟩
    · intro q hq f' hg
      exact hmax f' (List.mem_filterMap.mpr ⟨q, hq, (h q hq f').mpr hg⟩)
    · intro q hq f' hg
      rcases List.mem_append.mp hq with hq | hq
      · have hg' := (h q (by simp [hq]) f').mpr hg
        exact hlt f' (h₁ ▸ List.mem_filterMap.mpr ⟨q, hq, hg'⟩)
      · have hg' := (h q (by simp [hq]) f').mpr hg
        rw [h₃ q hq] at hg'
        exact absurd hg' (by simp)

lemma filterMap_stepPaths (g : Graph) (triggers : List String) (tag : String)
    (give : List Nat → Option Finding) (q : Finding → Bool) :
    ((stepPaths g triggers tag).filterMap give).filter q =
      ((g.tagged triggers).flatMap fun i => g.paths i tag).filterMap fun p =>
        if (endStep? g p).isSome then (give p).filter q else none := by
  rw [stepPaths, List.filterMap_filter, List.filter_filterMap]
  congr 1
  funext p
  split <;> rfl

lemma mem_stepPaths_iff_of_mem {g : Graph} {triggers : List String} {tag : String} {p : List Nat}
    (h : p ∈ (g.tagged triggers).flatMap fun i => g.paths i tag) :
    p ∈ stepPaths g triggers tag ↔ (endStep? g p).isSome = true := by
  rw [stepPaths, List.mem_filter, and_iff_right h]

lemma filter_isOn_toList_ofList {kind : String} {found : List Finding}
    (hkind : ∀ f ∈ found, f.kind = kind) (repo step : String) :
    (ofList found).toList.filter (isOn repo step) =
      (surest? (found.filter (isOn repo step))).toList := by
  have habout : ∀ f ∈ found, (f.repo = repo && f.isAbout kind step) = isOn repo step f := by
    intro f hf
    simp [isOn, isAbout, hkind f hf]
  rw [← List.filter_congr habout, ← Findings.filter_under_ofList, ← Findings.filter_toList
    (Findings.isSorted_ofList found) fun _ => Findings.repo_eq_of_mem_entries_ofList]
  exact List.filter_congr fun f hf => (habout f (Findings.mem_of_mem_toList_ofList hf)).symm

/-- What a finder keeps, given what it draws from a single path. -/
lemma reportsOnce_ofList {g : Graph} {triggers : List String} {tag kind repo step : String}
    {give : List Nat → Option Finding} {Gives : List Nat → Finding → Prop}
    (hkind : ∀ p f, give p = some f → f.kind = kind)
    (hgives : ∀ p f, p ∈ stepPaths g triggers tag ∧ give p = some f ∧ isOn repo step f = true ↔
      Gives p f) :
    ReportsOnce
      ((ofList ((stepPaths g triggers tag).filterMap give)).toList.filter (isOn repo step))
      ((g.tagged triggers).flatMap fun i => g.paths i tag) Gives := by
  have hfound : ∀ f ∈ (stepPaths g triggers tag).filterMap give, f.kind = kind := by
    intro f hf
    obtain ⟨p, -, hp⟩ := List.mem_filterMap.mp hf
    exact hkind p f hp
  rw [filter_isOn_toList_ofList hfound, filterMap_stepPaths]
  refine reportsOnce_surest? fun p hp f => ?_
  rw [← hgives p f, mem_stepPaths_iff_of_mem hp]
  split
  · next hs => rw [hs, Option.filter_eq_some_iff, and_iff_right rfl]
  · next hs => simp [hs]

lemma isOn_report (repo step : String) (g : Graph) (path : List Nat) (walk : Walk) (c : Confidence)
    (details : Details) (w : Graph.Workflow) (s : Graph.Step) :
    isOn repo step (walk.report g path c details w s) = true ↔ w.repo = repo ∧ s.name = step := by
  simp [isOn, Walk.report]

lemma InjectionBy.isOn_iff {k : Knowledge} {g : Graph} {path : List Nat} {w : Graph.Workflow}
    {s : Graph.Step} {walk : Walk} {f : Finding} (h : InjectionBy k g path w s walk f)
    (repo step : String) : isOn repo step f = true ↔ w.repo = repo ∧ s.name = step := by
  rw [h.finding, isOn_report]

lemma PwnRequestBy.isOn_iff {k : Knowledge} {g : Graph} {path : List Nat} {w : Graph.Workflow}
    {s : Graph.Step} {walk : Walk} {f : Finding} (h : PwnRequestBy k g path w s walk f)
    (repo step : String) : isOn repo step f = true ↔ w.repo = repo ∧ s.name = step := by
  obtain ⟨_, -, hf⟩ := h.finding
  rw [hf, isOn_report]

/-- What an audit keeps of each kind: the surest pwn request comes in after all injections. -/
lemma filter_under_findings (k : Knowledge) (g : Graph) (repo kind step : String) :
    ((findings k g).under repo).filter (isAbout kind step) =
      (surest? (((injectionPaths g).filterMap (injectionAlong k g)).filter
          (fun f => f.repo = repo && f.isAbout kind step) ++
        (surest? (((pwnRequestPaths g).filterMap (pwnRequestAlong k g)).filter fun f =>
          f.repo = repo && f.isAbout kind step)).toList)).toList := by
  set found := (injectionPaths g).filterMap (injectionAlong k g)
  set found' := (pwnRequestPaths g).filterMap (pwnRequestAlong k g)
  have hkept := Findings.filter_under_foldl_push (Findings.isSorted_ofList found)
    (Findings.filter_under_ofList found repo kind step) (ofList found').toList
  rw [Findings.filter_toList (Findings.isSorted_ofList found')
    (fun _ => Findings.repo_eq_of_mem_entries_ofList), Findings.filter_under_ofList] at hkept
  exact hkept

/-- Each of the findings that paths give has its step reported. -/
lemma exists_reported_of_mem {k : Knowledge} {g : Graph} {f : Finding}
    (h : f ∈ (injectionPaths g).filterMap (injectionAlong k g) ∨
      f ∈ (pwnRequestPaths g).filterMap (pwnRequestAlong k g)) :
    ∃ e ∈ (findings k g).entries, ∃ f' ∈ e.2, f'.stepName = f.stepName := by
  have hkept := filter_under_findings k g f.repo f.kind f.stepName
  set found := ((injectionPaths g).filterMap (injectionAlong k g)).filter fun f' =>
    f'.repo = f.repo && f'.isAbout f.kind f.stepName
  set found' := ((pwnRequestPaths g).filterMap (pwnRequestAlong k g)).filter fun f' =>
    f'.repo = f.repo && f'.isAbout f.kind f.stepName
  obtain ⟨f₀, hf₀⟩ : ∃ f₀, f₀ ∈ found ++ (surest? found').toList := by
    rcases h with h | h
    · exact ⟨f, List.mem_append_left _ (List.mem_filter.mpr ⟨h, by simp [isAbout]⟩)⟩
    · have hmem : f ∈ found' := List.mem_filter.mpr ⟨h, by simp [isAbout]⟩
      obtain ⟨f', hs⟩ := Finding.exists_surest? hmem
      exact ⟨f', List.mem_append_right _ (Option.mem_toList.mpr hs)⟩
  obtain ⟨f', hs⟩ := Finding.exists_surest? hf₀
  have hmem : f' ∈ ((findings k g).under f.repo).filter (isAbout f.kind f.stepName) := by
    rw [hkept, hs]
    exact List.mem_singleton.mpr rfl
  obtain ⟨hunder, habout⟩ := List.mem_filter.mp hmem
  obtain ⟨e, he, hf'⟩ := Findings.exists_entry_of_mem_under hunder
  simp only [isAbout, Bool.and_eq_true, decide_eq_true_eq] at habout
  exact ⟨e, he, f', hf', habout.2⟩

/-- Of each step each of the finders keeps at most one finding under a repository. It keeps one
whenever a path from a workflow of the repository gives one, and then that of the first path, in
the order of the entries and below that of the search, which no other path surpasses. -/
theorem steps_reported_once (k : Knowledge) (g : Graph) (repo step : String) :
    ReportsOnce ((injections k g).toList.filter (isOn repo step))
        ((g.tagged injectionTriggers).flatMap fun i => g.paths i "injectable")
        (fun p f => ∃ w s walk, InjectionBy k g p w s walk f ∧ w.repo = repo ∧ s.name = step) ∧
      ReportsOnce ((pwnRequests k g).toList.filter (isOn repo step))
        ((g.tagged pwnRequestTriggers).flatMap fun i => g.paths i "checkout")
        (fun p f => ∃ w s walk, PwnRequestBy k g p w s walk f ∧ w.repo = repo ∧ s.name = step) := by
  refine ⟨reportsOnce_ofList (fun _ _ => kind_of_injectionAlong) fun p f => ?_,
    reportsOnce_ofList (fun _ _ => kind_of_pwnRequestAlong) fun p f => ?_⟩
  · rw [← and_assoc, ← injectionPaths, injectionAlong_eq_some_iff]
    constructor
    · rintro ⟨⟨w, s, walk, h⟩, ho⟩
      exact ⟨w, s, walk, h, (h.isOn_iff repo step).mp ho⟩
    · rintro ⟨w, s, walk, h, ho⟩
      exact ⟨⟨w, s, walk, h⟩, (h.isOn_iff repo step).mpr ho⟩
  · rw [← and_assoc, ← pwnRequestPaths, pwnRequestAlong_eq_some_iff]
    constructor
    · rintro ⟨⟨w, s, walk, h⟩, ho⟩
      exact ⟨w, s, walk, h, (h.isOn_iff repo step).mp ho⟩
    · rintro ⟨w, s, walk, h, ho⟩
      exact ⟨⟨w, s, walk, h⟩, (h.isOn_iff repo step).mpr ho⟩

end WorkflowAudit.Audit
