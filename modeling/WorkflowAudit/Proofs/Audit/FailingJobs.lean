import WorkflowAudit.Proofs.Audit.DirectInjections
import WorkflowAudit.Proofs.Audit.Justification
import WorkflowAudit.Proofs.Graph.DocumentSearch

/-! A job at whose gate an outsider fails keeps the outsider from the jobs that wait for it, unless
another way leads there: of the jobs that one waits for, an attack passes only one. -/

namespace WorkflowAudit

open Source (Knowledge)
open WorkflowAudit.Graph

namespace Graph

variable {t : Classification.Tables} {d : Document} {j : Document.Job} {g : Graph} {x y : Nat}

/-- The first gate of a job is a hard one, and nothing up to there is skipped. -/
def Fails (t : Classification.Tables) (j : Document.Job) : Prop :=
  ∃ i < j.steps.length, (∃ s ∈ j.steps[i]?, (Classification.classifyStep t s).hardGate = true) ∧
    (∀ s ∈ j.steps.take i, (Classification.classifyStep t s).isGate = false) ∧
    ∀ s ∈ j.steps.take (i + 1), (Condition.ofText? s.condition).isRestricted = false

lemma fails_iff : Fails t j ↔ ∃ (i : Nat) (s : Document.Step), j.steps[i]? = some s ∧
    (Classification.classifyStep t s).hardGate = true ∧
      IsPassable t False (j.steps.take (i + 1)) := by
  have hpass : ∀ (i : Nat) (s : Document.Step), j.steps[i]? = some s →
      (IsPassable t False (j.steps.take (i + 1)) ↔
        (∀ s ∈ j.steps.take i, (Classification.classifyStep t s).isGate = false) ∧
          ∀ s ∈ j.steps.take (i + 1), (Condition.ofText? s.condition).isRestricted = false) := by
    intro i s hs
    rw [isPassable_iff, dropLast_take_succ hs]
    simp only [isGate_eq_false_iff, false_and, imp_false, not_exists, not_and, Bool.not_eq_true]
    constructor
    · rintro ⟨hopen, hhard, hsoft⟩
      exact ⟨fun s hs => ⟨hhard s hs, hsoft s hs⟩, hopen⟩
    · rintro ⟨hgate, hopen⟩
      exact ⟨hopen, fun s hs => (hgate s hs).1, fun s hs => (hgate s hs).2⟩
  constructor
  · rintro ⟨i, -, ⟨s, hs, hhard⟩, hrest⟩
    exact ⟨i, s, hs, hhard, (hpass i s hs).mpr hrest⟩
  · rintro ⟨i, s, hs, hhard, hrest⟩
    exact ⟨i, (List.getElem?_eq_some_iff.mp hs).1, ⟨s, hs, hhard⟩, (hpass i s hs).mp hrest⟩

lemma isApproach_singleton {job : Job} (hx : g.nodes[x]? = some (.job job))
    (hopen : job.condition.isRestricted = false) : IsApproach g [x] := by
  refine ⟨List.isChain_singleton _, List.nodup_singleton _, ?_, ?_⟩
  · intro y hy
    rw [List.mem_singleton.mp hy]
    exact (isOpen_iff hx).mpr hopen
  · intro y hy n hn
    rw [List.mem_singleton.mp hy, hx] at hn
    obtain rfl := Option.some.inj hn
    rfl

lemma blocker_mem_tags_iff {parent : Parent} {s : Document.Step} :
    "permission_blocker" ∈ (stepNode t parent s).tags ↔
      (Classification.classifyStep t s).hardGate = true := by
  rw [mem_tags_stepNode, stepTags]
  simp [Node.traitTags, Kind.tag]

lemma exists_step_of_mem_stepsOf (hg : Encloses t d g) (hd : IsRegular d) (hj : j ∈ d.jobs)
    (hx : g.nodes[x]? = some (jobNode d j)) (hy : y ∈ g.stepsOf x) :
    ∃ (i : Nat) (s : Document.Step), j.steps[i]? = some s ∧
      g.nodes[y]? = some (stepNode t (.ofJob d j) s) := by
  rw [stepsOf, List.mem_filter, Bool.and_eq_true, List.contains_iff_mem] at hy
  obtain ⟨-, he, hkind⟩ := hy
  obtain ⟨n, m, hn, hm, hstated⟩ := hg.edges x y .contains he
  obtain rfl := Option.some.inj (hx.symm.trans hn)
  have hstep : m.kind = .step := by simpa [hm] using hkind
  rcases edge_mem_workflowFacts (hstated (Or.inl ⟨j, hj, Or.inl rfl⟩)) with hkind | ⟨j₀, hj₀, hf⟩
  · cases hstep.symm.trans hkind
  rcases edge_mem_jobFacts hf with ⟨hkey, -⟩ | hkind | hf
  · cases hstep.symm.trans (congrArg Key.kind hkey)
  · cases hstep.symm.trans hkind
  rcases edge_mem_stepFacts hf with
    ⟨s, hs, hkey, hkey', -⟩ | (⟨_, -, hprev, -⟩ | ⟨_, _, _, _, _, hkey, -⟩) | hkind
  · obtain rfl := hd.eq_of_name hj hj₀ (key_jobNode_inj.mp hkey)
    obtain ⟨i, hi⟩ := List.mem_iff_getElem?.mp hs
    obtain rfl := hg.node_eq (hd.stepNode_mem hj hi) rfl hm hkey'
    exact ⟨i, s, hi, hm⟩
  · cases hprev
  · cases congrArg Key.kind hkey
  · cases hstep.symm.trans hkind

/-- The jobs that a job waits for, at once or after others. -/
def WaitsFor (d : Document) : String → String → Prop :=
  Relation.TransGen fun need name => ∃ j ∈ d.jobs, j.name = name ∧ need ∈ knownNeeds d j

/-- Where no job needs two others, there is no way around any of them. -/
lemma IsRegular.not_isReachedPast (hd : IsRegular d) {P : Document.Job → Prop}
    (hone : ∀ j ∈ d.jobs, ∀ a ∈ knownNeeds d j, ∀ b ∈ knownNeeds d j, a = b) {name : String}
    (hj : j ∈ d.jobs) (hwaits : WaitsFor d j.name name) (hP : ¬ P j) :
    ¬ IsReachedPast d P name := by
  intro h
  induction h with
  | @first j' hj' hneeds _ =>
    obtain ⟨_, -, j₀, hj₀, hname, hneed⟩ := Relation.TransGen.tail'_iff.mp hwaits
    obtain rfl := hd.eq_of_name hj₀ hj' hname
    exact absurd (hneeds ▸ hneed) List.not_mem_nil
  | @behind j' need hj' hneed hmem hpast _ _ ih =>
    cases hwaits with
    | single hlast =>
      obtain ⟨j₀, hj₀, hname, hmem'⟩ := hlast
      obtain rfl := hd.eq_of_name hj₀ hj' hname
      obtain rfl := hd.eq_of_name hj hneed (hone j₀ hj₀ _ hmem' _ hmem)
      exact hP hpast
    | tail hbefore hlast =>
      obtain ⟨j₀, hj₀, hname, hmem'⟩ := hlast
      obtain rfl := hd.eq_of_name hj₀ hj' hname
      rw [hone j₀ hj₀ _ hmem' _ hmem] at hbefore
      exact ih hbefore

end Graph

namespace Walk

variable {t : Classification.Tables} {d : Document} {j : Document.Job} {g : Graph} {x y : Nat}

/-- The search from a job comes to a hard gate of its own just in case the job fails. -/
lemma reachesOwnStep_iff (hg : Encloses t d g) (hd : IsRegular d) (hj : j ∈ d.jobs)
    (hx : g.nodes[x]? = some (jobNode d j))
    (hopen : (Condition.ofText? j.condition).isRestricted = false) :
    reachesOwnStep g x "permission_blocker" = true ↔ Fails t j := by
  have happroach := isApproach_singleton hx hopen
  have hlabeled : (g.hasTag x labeledTrigger = true) = False :=
    eq_false (not_hasTag_labeled_of_job hx)
  rw [fails_iff]
  constructor
  · intro h
    obtain ⟨p, hp, hend⟩ := List.any_eq_true.mp h
    obtain ⟨y, hy, hmem⟩ := (Option.any_eq_true _ _).mp hend
    obtain ⟨i, s, hs, hys⟩ :=
      exists_step_of_mem_stepsOf hg hd hj hx (List.contains_iff_mem.mp hmem)
    have ht := mem_paths_iff.mp hp
    obtain ⟨xs, rfl, hrun⟩ :=
      hd.exists_run_of_job hg hj hs ht.begins hx ht.consecutive ht.simple hy hys
    have hpass := (taggedPath_append_take_iff happroach rfl hrun hs ht.consecutive ht.simple).mp ht
    rw [hlabeled] at hpass
    exact ⟨i, s, hs, blocker_mem_tags_iff.mp hpass.2, hpass.1⟩
  · rintro ⟨i, s, hs, hhard, hpass⟩
    obtain ⟨xs, hrun⟩ := hg.exists_run hd.numbered (hd.isFirstNamed hj)
    obtain ⟨y, hy, hys⟩ := hrun.exists_getElem? hs
    have hpath : TaggedPath g x "permission_blocker" ([x] ++ xs.take (i + 1)) := by
      rw [hg.taggedPath_iff hd.numbered hj happroach rfl rfl hx hrun hs, hlabeled]
      exact ⟨hpass, blocker_mem_tags_iff.mpr hhard⟩
    refine List.any_eq_true.mpr ⟨_, mem_paths_iff.mpr hpath, (Option.any_eq_true _ _).mpr ⟨y, ?_,
      List.contains_iff_mem.mpr (hg.mem_stepsOf hj (List.mem_of_getElem? hs) hx hys)⟩⟩
    rw [List.getLast?_append, getLast?_take_succ hy, Option.some_or]

lemma isRuledOut_of_job {k : Knowledge} {p : Place} {job : Job}
    (hx : g.nodes[p.current]? = some (.job job)) :
    isRuledOut k g p = leavesBehind g p "permission_blocker" := by
  simp [isRuledOut, hx]

/-- A path that is not ruled out leaves no job of the workflow that fails. -/
lemma isChain_of_along {k : Knowledge} {path : List Nat} {walk : Walk} (hg : Encloses t d g)
    (hd : IsRegular d) (hopen : ∀ x ∈ path, g.IsOpen x) (h : along k g path = some walk) :
    path.IsChain fun x y => ∀ j₁ ∈ d.jobs, ∀ j₂ ∈ d.jobs, g.nodes[x]? = some (jobNode d j₁) →
      g.nodes[y]? = some (jobNode d j₂) → ¬ Fails t j₁ := by
  refine @isChain_of_placesFrom _ none path fun p hp y hy j₁ hj₁ j₂ _ hx hnode => ?_
  have hruled := (along_eq_some_iff.mp h).1 p hp
  have hjob : (Condition.ofText? j₁.condition).isRestricted = false :=
    (isOpen_iff hx).mp (hopen _ (current_mem_of_mem_placesFrom hp))
  intro hfails
  rw [isRuledOut_of_job hx, leavesBehind, (reachesOwnStep_iff hg hd hj₁ hx hjob).mpr hfails,
    Bool.and_true, Bool.not_eq_false', entersSteps, Option.mem_def.mp hy, Option.any_some] at hruled
  obtain ⟨_, s, -, hs⟩ :=
    exists_step_of_mem_stepsOf hg hd hj₁ hx (List.contains_iff_mem.mp hruled)
  exact absurd (hnode.symm.trans hs) (by simp [jobNode, stepNode])

/-- A path that leaves no job that fails is not ruled out, unless it begins in a fork. -/
lemma exists_along {k : Knowledge} {front xs : List Nat} {steps : List Document.Step}
    (hg : Encloses t d g) (hd : IsRegular d) (hfork : k.isFork d.repo = false)
    (happroach : IsApproach g front) (hx : x ∈ front.getLast?)
    (hx' : g.nodes[x]? = some (jobNode d j)) (hpast : ∀ y ∈ front.dropLast,
      g.nodes[y]? = some (workflowNode d) ∨ ∃ j' ∈ d.jobs, ¬ Fails t j' ∧
        g.nodes[y]? = some (jobNode d j'))
    (hr : IsRun t g (.ofJob d j) xs steps) (hhead : ∃ y ∈ xs.head?, y ∈ g.stepsOf x) :
    ∃ walk, along k g (front ++ xs) = some walk := by
  have hsplit := List.dropLast_append_getLast? x hx
  refine ⟨_, along_eq_some_iff.mpr ⟨fun p hp => ?_, rfl⟩⟩
  rw [← hsplit, List.append_assoc, List.singleton_append] at hp
  rcases mem_placesFrom_append hp with hp | ⟨hp, hfollowing⟩ | hp
  · rcases hpast _ hp with hw | ⟨j', hj', hfails, hnode⟩
    · simp [isRuledOut, hw, workflowNode, Workflow.ofDocument, hfork]
    · have hopen : (Condition.ofText? j'.condition).isRestricted = false :=
        (isOpen_iff hnode).mp (happroach.isOpen _ (List.dropLast_subset front hp))
      rw [← reachesOwnStep_iff hg hd hj' hnode hopen, Bool.not_eq_true] at hfails
      rw [isRuledOut_of_job hnode, leavesBehind, hfails, Bool.and_false]
  · obtain ⟨y, hy, hmem⟩ := hhead
    rw [← hp] at hx' hmem
    rw [isRuledOut_of_job hx', leavesBehind, entersSteps, hfollowing, Option.mem_def.mp hy,
      Option.any_some, List.contains_iff_mem.mpr hmem, Bool.not_true, Bool.false_and]
  · exact isRuledOut_of_isRun hr hp

end Walk

namespace Audit

variable {k : Knowledge} {t : Classification.Tables} {d : Document} {j : Document.Job}
  {s : Document.Step} {i : Nat} {g : Graph}

/-- An attack on a step gets to the job of the step without leaving a job that fails. -/
lemma isReachedPast_of_attackPath {triggers : List String} {tag : String} {path : List Nat}
    {flow : Graph.Workflow} {step : Graph.Step} {walk : Walk} (hg : Encloses t d g)
    (hd : IsRegular d) (hj : j ∈ d.jobs) (hs : j.steps[i]? = some s)
    (h : AttackPath k g triggers tag path flow step walk)
    (hname : step.name = stepName (jobNode d j).name i) :
    IsReachedPast d (fun j => ¬ Fails t j) j.name := by
  obtain ⟨w, hw, -, ht⟩ := h.taggedPath
  obtain ⟨y, hy, hstep⟩ := h.last
  have hkey : (Node.step step).key = (stepNode t (.ofJob d j) s).key := by
    rw [key_stepNode, hd.numbered j hj i s hs]
    exact congrArg (Key.mk .step) hname
  have hnode := hg.node_eq (hd.stepNode_mem hj hs) rfl hstep hkey
  rw [hnode] at hstep
  have hkind : (Node.workflow flow).kind ≠ .step := by simp [Node.kind]
  have hpast := Walk.isChain_of_along hg hd ht.isOpen h.walked
  obtain ⟨front, xs, rfl, -, x, hx, hx'⟩ :=
    hd.exists_run_of_chain hg hj hs ht.begins hw hkind ht.consecutive hy hstep
  have hfront : ∀ x ∈ front.head?, ∃ flow, g.nodes[x]? = some (.workflow flow) := by
    intro z hz
    have hbegins := ht.begins
    rw [List.head?_append, Option.mem_def.mp hz, Option.some_or] at hbegins
    exact ⟨flow, Option.some.inj hbegins ▸ hw⟩
  exact (hd.isReachedPast_of_chain hg hj hfront ht.consecutive.left_of_append hpast.left_of_append
    ht.simple.of_append_left (fun y hy => ht.isOpen y (List.mem_append_left _ hy)) hx hx').1

/-- An outsider who gets to a job goes on to a checkout of code that may change, in a workflow with
privileges. -/
@[mk_iff]
structure ExposesCheckout (k : Knowledge) (t : Classification.Tables) (d : Document)
    (j : Document.Job) (i : Nat) : Prop where
  notFork : k.isFork d.repo = false
  trigger : ∃ tag ∈ pwnRequestTriggers, tag ∈ d.triggers
  isPassable : IsPassable t (labeledTrigger ∈ d.triggers) (j.steps.take (i + 1))
  checkout : ∃ s ∈ j.steps[i]?, (Classification.classifyStep t s).isMutableCheckout = true

lemma exists_pwnRequestBy (hg : Encloses t d g) (hd : IsRegular d) (hj : j ∈ d.jobs)
    (hs : j.steps[i]? = some s) (h : ExposesCheckout k t d j i)
    (hreached : IsReachedPast d (fun j => ¬ Fails t j) j.name) :
    ∃ path walk f, PwnRequestBy k g path (.ofDocument d)
      (.ofDocument t (jobNode d j).name d.repo j.name s) walk f := by
  obtain ⟨w, hw⟩ := hg.exists_of_mem rfl (workflowNode_mem (isValid_of_mem_jobs hj))
  obtain ⟨front, x, hx, j', hj', hname, hhead, happroach, hx', hpast⟩ :=
    hd.exists_approach hg.toIncludes hreached hw
  obtain rfl := hd.eq_of_name hj' hj hname
  obtain ⟨xs, hr⟩ := hg.exists_run hd.numbered (hd.isFirstNamed hj)
  obtain ⟨s', hs', hcheckout⟩ := h.checkout
  obtain rfl := Option.some.inj (hs.symm.trans hs')
  obtain ⟨hcheckout, hmutable⟩ := Bool.and_eq_true_iff.mp hcheckout
  have htag : "checkout" ∈ (stepNode t (.ofJob d j') s).tags := by
    rw [mem_tags_stepNode, stepTags]
    simp [Node.traitTags, hcheckout]
  have hpass := h.isPassable
  rw [← workflowNode_hasTag_labeled hw] at hpass
  have htake : IsRun t g (.ofJob d j') (xs.take (i + 1)) (j'.steps.take (i + 1)) :=
    List.forall₂_take _ hr
  obtain ⟨walk, hwalk⟩ := Walk.exists_along hg hd h.notFork happroach hx hx' hpast htake
    (hg.exists_head_mem_stepsOf hj hx' hr hs)
  have hattack := attackPath_of_approach hg.toIncludes hd.numbered hj happroach hhead hw hx hx' hr
    hs h.trigger hpass htag hwalk
  obtain ⟨y, hy, -⟩ := hattack.last
  exact ⟨_, walk, _, hattack, Or.inr hmutable, y, hy, rfl⟩

/-- An audit of a workflow on its own has a finding about a step of a job. -/
def Reports (k : Knowledge) (t : Classification.Tables) (d : Document) (j : Document.Job)
    (i : Nat) : Prop :=
  ∃ e ∈ ((IndexedGraph.empty.addWorkflow t d).audit k t).entries, ∃ f ∈ e.2,
    f.stepName = stepName (jobName (Workflow.ofDocument d).name j.name) i

lemma reports_iff : Reports k t d j i ↔ ∃ e ∈ (findings k (resolved k t (ofWorkflow t d))).entries,
    ∃ f ∈ e.2, f.stepName = stepName (jobNode d j).name i := by
  rw [Reports, (IndexedGraph.represents_empty.addWorkflow t d).audit_eq]
  rfl

lemma isReachedPast_of_reports (hd : IsRegular d) (hk : HasNoNamesake k d) (hj : j ∈ d.jobs)
    (hs : j.steps[i]? = some s) (h : Reports k t d j i) :
    IsReachedPast d (fun j => ¬ Fails t j) j.name := by
  obtain ⟨e, he, f, hf, hname⟩ := reports_iff.mp h
  have hg : Encloses t d (resolved k t (ofWorkflow t d)) := encloses_resolved hk
  rcases (mem_entries_findings he hf).1 with hmem | hmem
  · obtain ⟨p, hp, hgive⟩ := List.mem_filterMap.mp hmem
    obtain ⟨w, step, walk, hby⟩ := injectionAlong_eq_some_iff.mp ⟨hp, hgive⟩
    rw [hby.finding] at hname
    exact isReachedPast_of_attackPath hg hd hj hs hby.toAttackPath hname
  · obtain ⟨p, hp, hgive⟩ := List.mem_filterMap.mp hmem
    obtain ⟨w, step, walk, hby⟩ := pwnRequestAlong_eq_some_iff.mp ⟨hp, hgive⟩
    obtain ⟨_, -, hfinding⟩ := hby.finding
    rw [hfinding] at hname
    exact isReachedPast_of_attackPath hg hd hj hs hby.toAttackPath hname

lemma reports_of_isReachedPast (hd : IsRegular d) (hk : HasNoNamesake k d) (hj : j ∈ d.jobs)
    (h : ExposesCheckout k t d j i) (hreached : IsReachedPast d (fun j => ¬ Fails t j) j.name) :
    Reports k t d j i := by
  obtain ⟨s, hs, -⟩ := h.checkout
  obtain ⟨path, walk, f, hby⟩ := exists_pwnRequestBy (encloses_resolved hk) hd hj hs h hreached
  obtain ⟨hp, hgive⟩ := pwnRequestAlong_eq_some_iff.mpr ⟨_, _, _, hby⟩
  obtain ⟨e, he, f', hf', hname⟩ :=
    exists_reported_of_mem (Or.inr (List.mem_filterMap.mpr ⟨path, hp, hgive⟩))
  obtain ⟨_, -, hfinding⟩ := hby.finding
  refine reports_iff.mpr ⟨e, he, f', hf', hname.trans ?_⟩
  rw [hfinding]
  exact congrArg (stepName _) (hd.numbered j hj i s hs)

/-- A job whose gate fails outsiders shields the steps behind it from being reported as long as no
way of needs leads around it. Which way that is decides alone: a checkout that is open to attacks is
reported just in case its job is reached past jobs that do not fail. Where no job needs two others,
whatever waits for a job that fails is shielded. -/
theorem failing_jobs_shield (hd : IsRegular d) (hk : HasNoNamesake k d) (hj : j ∈ d.jobs)
    (hs : j.steps[i]? = some s) :
    (Reports k t d j i → IsReachedPast d (fun j => ¬ Fails t j) j.name) ∧
      (ExposesCheckout k t d j i →
        (Reports k t d j i ↔ IsReachedPast d (fun j => ¬ Fails t j) j.name)) ∧
      ((∀ j ∈ d.jobs, ∀ a ∈ knownNeeds d j, ∀ b ∈ knownNeeds d j, a = b) →
        ∀ j' ∈ d.jobs, Fails t j' → WaitsFor d j'.name j.name → ¬ Reports k t d j i) := by
  have hreached : Reports k t d j i → IsReachedPast d (fun j => ¬ Fails t j) j.name :=
    isReachedPast_of_reports hd hk hj hs
  refine ⟨hreached, fun h => ⟨hreached, reports_of_isReachedPast hd hk hj h⟩, ?_⟩
  intro hone j' hj' hfails hwaits hreports
  exact hd.not_isReachedPast hone hj' hwaits (not_not.mpr hfails) (hreached hreports)

instance (t : Classification.Tables) (j : Document.Job) : Decidable (Fails t j) :=
  inferInstanceAs (Decidable (∃ i < j.steps.length,
    (∃ s ∈ j.steps[i]?, (Classification.classifyStep t s).hardGate = true) ∧
      (∀ s ∈ j.steps.take i, (Classification.classifyStep t s).isGate = false) ∧
      ∀ s ∈ j.steps.take (i + 1), (Condition.ofText? s.condition).isRestricted = false))

instance (t : Classification.Tables) (labeled : Prop) [Decidable labeled]
    (steps : List Document.Step) : Decidable (IsPassable t labeled steps) :=
  decidable_of_iff _ (isPassable_iff t labeled steps).symm

instance (k : Knowledge) (t : Classification.Tables) (d : Document) (j : Document.Job) (i : Nat) :
    Decidable (ExposesCheckout k t d j i) :=
  decidable_of_iff _ (exposesCheckout_iff k t d j i).symm

lemma hasNoNamesake_nothingKnown (d : Document) : HasNoNamesake nothingKnown d :=
  ⟨fun _ _ h => absurd h (Option.some_ne_none _).symm,
    fun _ _ h => absurd h (Option.some_ne_none _).symm⟩

/-- A workflow whose last job tests the code of an outsider, besides a job that fails for outsiders
and one that does not. -/
def tested (needs : String) : Document :=
  Document.parse ("on: issue_comment\njobs:\n check:\n  steps:\n" ++
    "  - uses: morfien101/actions-authorized-user@v2\n build:\n  steps:\n  - run: ls\n" ++
    " test:\n  needs: " ++ needs ++ "\n  steps:\n  - run: gh pr checkout 7\n")
    "o/r" "HEAD" "ci.yml"

theorem checked_test_shielded :
    let d := tested "check"
    IsRegular d ∧ HasNoNamesake nothingKnown d ∧ ∃ j ∈ d.jobs, ∃ s, j.steps[0]? = some s ∧
      ExposesCheckout nothingKnown .default d j 0 ∧
      (∀ j ∈ d.jobs, ∀ a ∈ knownNeeds d j, ∀ b ∈ knownNeeds d j, a = b) ∧
      (∃ j' ∈ d.jobs, Fails .default j' ∧ WaitsFor d j'.name j.name) ∧
      ¬ Reports nothingKnown .default d j 0 := by
  intro d
  obtain ⟨hnames, hone, j, hj, hexposed, j', hj', hfails, hneed⟩ : (d.jobs.map (·.name)).Nodup ∧
      (∀ j ∈ d.jobs, ∀ a ∈ knownNeeds d j, ∀ b ∈ knownNeeds d j, a = b) ∧
      ∃ j ∈ d.jobs, ExposesCheckout nothingKnown .default d j 0 ∧
        ∃ j' ∈ d.jobs, Fails .default j' ∧ j'.name ∈ knownNeeds d j := by
    decide +kernel
  have hd : IsRegular d := ⟨hnames, Document.isNumbered_parse _ _ _ _⟩
  have hk := hasNoNamesake_nothingKnown d
  obtain ⟨s, hs, -⟩ := hexposed.checkout
  have hwaits : WaitsFor d j'.name j.name := .single ⟨j, hj, rfl, hneed⟩
  exact ⟨hd, hk, j, hj, s, hs, hexposed, hone, ⟨j', hj', hfails, hwaits⟩,
    (failing_jobs_shield hd hk hj hs).2.2 hone j' hj' hfails hwaits⟩

/-- The needs have no cycle here, and still the job that fails does not shield what waits for it:
the other job that is needed leads around it. -/
theorem way_around_failing_job :
    let d := tested "[check, build]"
    (∀ name, ¬ WaitsFor d name name) ∧ ∃ j' ∈ d.jobs, ∃ j ∈ d.jobs, Fails .default j' ∧
      WaitsFor d j'.name j.name ∧ Reports nothingKnown .default d j 0 := by
  intro d
  obtain ⟨hnames, hfirst, hopen, j, hj, hexposed, ⟨j', hj', hfails, hneed⟩, b, hb, hpast, hway⟩ :
      (d.jobs.map (·.name)).Nodup ∧
      (∀ j₁ ∈ d.jobs, ∀ j₂ ∈ d.jobs, j₂.name ∈ knownNeeds d j₁ → knownNeeds d j₂ = []) ∧
      (∀ j ∈ d.jobs, (Condition.ofText? j.condition).isRestricted = false) ∧
      ∃ j ∈ d.jobs, ExposesCheckout nothingKnown .default d j 0 ∧
        (∃ j' ∈ d.jobs, Fails .default j' ∧ j'.name ∈ knownNeeds d j) ∧
        ∃ b ∈ d.jobs, ¬ Fails .default b ∧ b.name ∈ knownNeeds d j := by
    decide +kernel
  have hd : IsRegular d := ⟨hnames, Document.isNumbered_parse _ _ _ _⟩
  have hreached : IsReachedPast d (fun j => ¬ Fails .default j) j.name :=
    .behind hj hb hway hpast (.first hb (hfirst j hj b hb hway) (hopen b hb)) (hopen j hj)
  refine ⟨fun name hcycle => ?_, j', hj', j, hj, hfails, .single ⟨j, hj, rfl, hneed⟩,
    reports_of_isReachedPast hd (hasNoNamesake_nothingKnown d) hj hexposed hreached⟩
  obtain ⟨_, ⟨j₁, hj₁, -, hmem⟩, -⟩ := Relation.TransGen.head'_iff.mp hcycle
  obtain ⟨_, -, j₂, hj₂, rfl, hmem'⟩ := Relation.TransGen.tail'_iff.mp hcycle
  rw [hfirst j₁ hj₁ j₂ hj₂ hmem] at hmem'
  exact absurd hmem' List.not_mem_nil

end Audit

end WorkflowAudit
