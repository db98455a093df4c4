import WorkflowAudit.Proofs.Graph.DocumentSearch

/-! A step that an outsider's run skips hides the steps behind it from the search, although the job
goes on with them. -/

namespace WorkflowAudit

/-- The document with another step in a place of the jobs of a name. -/
def Document.withStep (d : Document) (job : String) (i : Nat) (s : Step) : Document :=
  { d with
    content := d.content.map fun c =>
      { c with
        jobs := c.jobs.map fun j =>
          if j.name = job then { j with steps := j.steps.set i s } else j } }

namespace Graph

open Classification (classifyStep)

/-- A step that always runs and is nothing to an audit. -/
@[mk_iff]
structure IsNeutral (t : Classification.Tables) (i : Nat) (s : Document.Step) : Prop where
  index : s.index = i
  unconditional : Condition.ofText? s.condition = .always
  noTag : Node.traitTags (classifyStep t s) = []

variable {t : Classification.Tables} {d : Document} {j : Document.Job} {s s' : Document.Step}
  {i m : Nat} {name tag : String} {labeled : Prop}

lemma jobs_withStep (d : Document) (job : String) (i : Nat) (s : Document.Step) :
    (d.withStep job i s).jobs = d.jobs.map fun j =>
      if j.name = job then { j with steps := j.steps.set i s } else j := by
  rw [Document.jobs, Document.jobs, Document.withStep]
  cases d.content <;> rfl

lemma triggers_withStep (d : Document) (job : String) (i : Nat) (s : Document.Step) :
    (d.withStep job i s).triggers = d.triggers := by
  rw [Document.triggers, Document.triggers, Document.withStep]
  cases d.content <;> rfl

lemma IsNeutral.not_gate (h : IsNeutral t i s) :
    (classifyStep t s).hardGate = false ∧ (classifyStep t s).softGate = false ∧
      (classifyStep t s).isMutableCheckout = false := by
  obtain ⟨hcheckout, -, -, hgate, -⟩ : (classifyStep t s).isCheckout = false ∧
      (classifyStep t s).isSink = false ∧ (classifyStep t s).injectable = false ∧
      (classifyStep t s).isGate = false ∧ (classifyStep t s).hardGate = false := by
    simpa [Node.traitTags] using h.noTag
  obtain ⟨hhard, hsoft⟩ := not_gate_of_isGate hgate
  exact ⟨hhard, hsoft, by rw [StepClass.isMutableCheckout, hcheckout, Bool.false_and]⟩

lemma isOpen_of_always (h : Condition.ofText? s.condition = .always) :
    (Condition.ofText? s.condition).isRestricted = false := by
  rw [h]
  rfl

/-- A neutral step before the last one changes nothing for those around it. -/
lemma isPassable_insert_iff (h : IsNeutral t i s) {xs ys : List Document.Step} (hys : ys ≠ []) :
    IsPassable t labeled (xs ++ s :: ys) ↔ IsPassable t labeled (xs ++ ys) := by
  obtain ⟨hhard, hsoft, hmutable⟩ := h.not_gate
  have hopen := isOpen_of_always h.unconditional
  have hdrop : (xs ++ s :: ys).dropLast = xs ++ s :: ys.dropLast := by
    rw [List.dropLast_append_of_ne_nil (by simp), List.dropLast_cons_of_ne_nil hys]
  have hdrop' : (xs ++ ys).dropLast = xs ++ ys.dropLast := List.dropLast_append_of_ne_nil hys
  rw [isPassable_iff, isPassable_iff, hdrop, hdrop']
  simp only [List.mem_append, List.mem_cons, or_imp, forall_and, forall_eq, or_and_right, exists_or,
    exists_eq_left, hopen, hhard, hsoft, hmutable, Bool.false_eq_true, false_or, true_and]

lemma mem_jobs_withStep (hj : j ∈ d.jobs) :
    { j with steps := j.steps.set i s } ∈ (d.withStep j.name i s).jobs := by
  rw [jobs_withStep]
  exact List.mem_map.mpr ⟨j, hj, if_pos rfl⟩

lemma knownNeeds_withStep (job : String) (j : Document.Job) :
    knownNeeds (d.withStep job i s) j = knownNeeds d j := by
  have hname : ∀ need,
      (d.withStep job i s).jobs.any (·.name = need) = d.jobs.any (·.name = need) := by
    intro need
    rw [jobs_withStep, List.any_map]
    refine congrArg d.jobs.any (funext fun j => ?_)
    by_cases h : j.name = job <;> simp [h]
  simp only [knownNeeds, hname]

lemma IsRegular.withStep (hd : IsRegular d) (hi : s.index = i) (job : String) :
    IsRegular (d.withStep job i s) := by
  constructor
  · rw [jobs_withStep, List.map_map]
    convert hd.names using 2
    funext j
    by_cases h : j.name = job <;> simp [h]
  · intro j hj k s' hs'
    rw [jobs_withStep] at hj
    obtain ⟨j₀, hj₀, rfl⟩ := List.mem_map.mp hj
    split at hs'
    · rw [List.getElem?_set] at hs'
      split at hs'
      · next hik =>
        split at hs'
        · rw [← Option.some.inj hs', hi, hik]
        · exact absurd hs' (by simp)
      · exact hd.numbered j₀ hj₀ k s' hs'
    · exact hd.numbered j₀ hj₀ k s' hs'

/-- What is reached depends on the conditions and needs of jobs only. -/
lemma IsReached.of_jobs {d' : Document} (h : IsReached d name)
    (hjobs : ∀ j ∈ d.jobs, ∃ j' ∈ d'.jobs, j'.name = j.name ∧ knownNeeds d' j' = knownNeeds d j ∧
      j'.condition = j.condition) : IsReached d' name := by
  induction h with
  | first hj hneeds hopen =>
    obtain ⟨j', hj', hname, hneeds', hcond⟩ := hjobs _ hj
    rw [← hname]
    exact .first hj' (hneeds'.trans hneeds) (hcond ▸ hopen)
  | behind hj hneed _ hopen ih =>
    obtain ⟨j', hj', hname, hneeds', hcond⟩ := hjobs _ hj
    rw [← hname]
    exact .behind hj' (hneeds' ▸ hneed) ih (hcond ▸ hopen)

lemma isReached_withStep_iff {job : String} :
    IsReached (d.withStep job i s) name ↔ IsReached d name := by
  constructor
  · intro h
    refine h.of_jobs fun j hj => ?_
    rw [jobs_withStep] at hj
    obtain ⟨j₀, hj₀, rfl⟩ := List.mem_map.mp hj
    rw [knownNeeds_withStep]
    refine ⟨j₀, hj₀, ?_⟩
    split <;> exact ⟨rfl, rfl, rfl⟩
  · intro h
    refine h.of_jobs fun j hj => ?_
    rw [jobs_withStep]
    refine ⟨_, List.mem_map.mpr ⟨j, hj, rfl⟩, ?_⟩
    rw [knownNeeds_withStep]
    split <;> exact ⟨rfl, rfl, rfl⟩

/-- The search never comes to a step behind one that is skipped. If the skipped step stood aside, it
would come there just in case the other steps up to there let an outsider through. -/
theorem skipped_step_shields (hd : IsRegular d) (hj : j ∈ d.jobs) (hs : j.steps[i]? = some s)
    (hskipped : (Condition.ofText? s.condition).isRestricted = true) (him : i < m)
    {last : Document.Step} (hlast : j.steps[m]? = some last) (hs' : IsNeutral t i s')
    (tag : String) :
    ¬ ComesTo t d tag j.name m ∧
      (ComesTo t (d.withStep j.name i s') tag j.name m ↔
        IsReached d j.name ∧ IsPassable t (labeledTrigger ∈ d.triggers)
          ((j.steps.take (m + 1)).eraseIdx i) ∧ tag ∈ stepTags t last) := by
  constructor
  · rw [hd.comesTo_iff hj hlast]
    rintro ⟨-, hpass, -⟩
    have hmem : (j.steps.take (m + 1))[i]? = some s := by
      rw [List.getElem?_take, if_pos (Nat.lt_succ_of_lt him), hs]
    have hopen := hpass.isOpen s (List.mem_of_getElem? hmem)
    exact absurd (hopen.symm.trans hskipped) (by simp)
  · have hlast' : (j.steps.set i s')[m]? = some last := by
      rw [List.getElem?_set_ne him.ne, hlast]
    have hlen : (j.steps.take (m + 1)).length = m + 1 :=
      List.length_take_of_le (List.getElem?_eq_some_iff.mp hlast).1
    have hne : (j.steps.take (m + 1)).drop (i + 1) ≠ [] := by
      rw [Ne, List.drop_eq_nil_iff, hlen]
      omega
    -- The neutral step stands where the skipped one stood, and no condition depends on it.
    have hpass : IsPassable t (labeledTrigger ∈ d.triggers) ((j.steps.set i s').take (m + 1)) ↔
        IsPassable t (labeledTrigger ∈ d.triggers) ((j.steps.take (m + 1)).eraseIdx i) := by
      rw [List.take_set, List.set_eq_take_append_cons_drop, if_pos (by omega),
        isPassable_insert_iff hs' hne, List.eraseIdx_eq_take_drop_succ]
    rw [(hd.withStep hs'.index j.name).comesTo_iff (mem_jobs_withStep hj) hlast',
      isReached_withStep_iff, triggers_withStep, hpass]

instance (t : Classification.Tables) (i : Nat) (s : Document.Step) : Decidable (IsNeutral t i s) :=
  decidable_of_iff _ (isNeutral_iff t i s).symm

instance (t : Classification.Tables) (d : Document) (tag job : String) (i : Nat) :
    Decidable (ComesTo t d tag job i) :=
  inferInstanceAs (Decidable (∃ w ∈ (ofWorkflow t d).workflowNumber? d,
    ∃ p ∈ (ofWorkflow t d).paths w tag, ∃ y ∈ p.getLast?,
      (ofWorkflow t d).nodes[y]?.map (·.key) =
        some ⟨.step, stepName (jobName (Workflow.ofDocument d).name job) i⟩))

/-- A workflow whose first step is never run, before one that runs code of the tree. -/
def skipping : Document :=
  Document.parse ("on: push\njobs:\n  build:\n    steps:\n    - if: 'false'\n      run: ls\n" ++
    "    - run: make\n") "o/r" "HEAD" "ci.yml"

/-- A step that stands aside. -/
def quietStep : Document.Step := ⟨0, none, none, none, some "true", [], [], none⟩

theorem skipping_shields :
    IsRegular skipping ∧ IsNeutral .default 0 quietStep ∧ ∃ j ∈ skipping.jobs, ∃ s last,
      j.steps[0]? = some s ∧ (Condition.ofText? s.condition).isRestricted = true ∧
      j.steps[1]? = some last ∧ ¬ ComesTo .default skipping "sink" j.name 1 ∧
      (ComesTo .default (skipping.withStep j.name 0 quietStep) "sink" j.name 1 ↔
        IsReached skipping j.name ∧
          IsPassable .default (labeledTrigger ∈ skipping.triggers)
            ((j.steps.take 2).eraseIdx 0) ∧ "sink" ∈ stepTags .default last) := by
  have hd : IsRegular skipping := ⟨by decide +kernel, Document.isNumbered_parse _ _ _ _⟩
  have hquiet : IsNeutral .default 0 quietStep := by decide +kernel
  have hall : ∃ j ∈ skipping.jobs, (∃ s ∈ j.steps[0]?,
      (Condition.ofText? s.condition).isRestricted = true) ∧ (j.steps[1]?).isSome = true := by
    decide +kernel
  obtain ⟨j, hj, ⟨s, hs, hskipped⟩, hlast⟩ := hall
  obtain ⟨last, hlast⟩ := Option.isSome_iff_exists.mp hlast
  exact ⟨hd, hquiet, j, hj, s, last, hs, hskipped, hlast,
    skipped_step_shields hd hj hs hskipped Nat.zero_lt_one hlast hquiet "sink"⟩

theorem step_behind_skipped_missed :
    ∃ j ∈ skipping.jobs, (∃ s ∈ j.steps[0]?, (Condition.ofText? s.condition).isRestricted = true) ∧
      IsNeutral .default 0 quietStep ∧ ¬ ComesTo .default skipping "sink" j.name 1 ∧
      ComesTo .default (skipping.withStep j.name 0 quietStep) "sink" j.name 1 := by
  decide +kernel

end Graph

end WorkflowAudit
