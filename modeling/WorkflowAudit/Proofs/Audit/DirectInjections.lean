import WorkflowAudit.Audit.Basic
import WorkflowAudit.Proofs.Audit.Reporting
import WorkflowAudit.Proofs.Audit.Scopes
import WorkflowAudit.Proofs.Graph.DocumentPaths

/-! A context that stands in the script of a step is reported, whatever surrounds the step, once an
outsider comes through the steps before it. -/

namespace WorkflowAudit

open Source (Knowledge)
open WorkflowAudit.Graph

namespace Scope

/-- A context that stands for itself is found where it stands, whatever is known of other names. -/
lemma mem_implicated_of_isRoot (scope : Scope) {bodies : List String} {body token : String}
    (hbody : body ∈ bodies) (htoken : token ∈ Context.tokens body) (h : isRoot token = true) :
    ⟨token, .direct, none⟩ ∈ scope.implicated bodies := by
  refine mem_implicated_iff.mpr ⟨body, hbody, ?_⟩
  rw [scope.resolveBody_of_mem htoken]
  refine List.mem_flatMap.mpr ⟨token, htoken, ?_⟩
  rw [resolveToken_of_isRoot scope h]
  exact List.mem_singleton_self _

end Scope

namespace Walk

variable {k : Knowledge} {g : Graph} {t : Classification.Tables} {parent : Parent}
  {steps : List Document.Step} {xs : List Nat} {w x : Nat} {flow : Workflow} {job : Job}

lemma isRuledOut_of_isRun (h : IsRun t g parent xs steps) {p : Place} (hp : p.current ∈ xs) :
    isRuledOut k g p = false := by
  obtain ⟨s, -, hs⟩ := h.getElem?_of_mem hp
  simp [isRuledOut, hs, stepNode]

lemma isGuard_of_isRun (h : IsRun t g parent xs steps) {p : Place} (hp : p.current ∈ xs) :
    isGuard k g p = false := by
  obtain ⟨s, -, hs⟩ := h.getElem?_of_mem hp
  simp [isGuard, jobAt?, hs, stepNode]

/-- The walk from a workflow over a job into the steps of the job is neither ruled out nor
guarded. -/
lemma along_into_steps (hw : g.nodes[w]? = some (.workflow flow))
    (hfork : k.isFork flow.repo = false) (hx : g.nodes[x]? = some (.job job))
    (henv : job.environment.any (k.isProtected job.repo) = false) (hr : IsRun t g parent xs steps)
    (hhead : ∃ y ∈ xs.head?, y ∈ g.stepsOf x) :
    ∃ walk, along k g (w :: x :: xs) = some walk ∧ walk.approvalGate = false := by
  obtain ⟨y, hy, hstep⟩ := hhead
  obtain ⟨rest, rfl⟩ := List.head?_eq_some_iff.mp hy
  set first : Place := ⟨true, none, w, some x⟩
  set second : Place := ⟨false, some w, x, some y⟩
  have hplaces : places (w :: x :: y :: rest) =
      first :: second :: placesFrom (some x) (y :: rest) := rfl
  have hstays : ∀ tag, leavesBehind g second tag = false := by
    intro tag
    simp [leavesBehind, entersSteps, second, hstep]
  have hsteps : ∀ p ∈ placesFrom (some x) (y :: rest),
      isRuledOut k g p = false ∧ isGuard k g p = false := fun p hp =>
    ⟨isRuledOut_of_isRun hr (current_mem_of_mem_placesFrom hp),
      isGuard_of_isRun hr (current_mem_of_mem_placesFrom hp)⟩
  have hruled : ∀ p ∈ places (w :: x :: y :: rest), isRuledOut k g p = false := by
    intro p hp
    rw [hplaces] at hp
    rcases List.mem_cons.mp hp with rfl | hp
    · simp [isRuledOut, first, hw, hfork]
    · rcases List.mem_cons.mp hp with rfl | hp
      · simp only [isRuledOut, second, hx]
        exact hstays _
      · exact (hsteps p hp).1
  have hguard : (places (w :: x :: y :: rest)).any (isGuard k g) = false := by
    rw [hplaces, List.any_eq_false]
    intro p hp
    rw [Bool.not_eq_true]
    rcases List.mem_cons.mp hp with rfl | hp
    · simp [isGuard, jobAt?, first, hw]
    · rcases List.mem_cons.mp hp with rfl | hp
      · have hjob : g.jobAt? second.current = some job := by simp [jobAt?, second, hx]
        rw [isGuard, hjob, Option.any_some, henv, hstays, Bool.or_false]
      · exact (hsteps p hp).2
  have halong := along_eq_some_iff.mpr ⟨hruled, rfl⟩
  exact ⟨_, halong, (approvalGate_of_along halong).trans hguard⟩

end Walk

namespace Audit

open Finding (isAbout surest?)

variable {k : Knowledge} {t : Classification.Tables} {d : Document} {j : Document.Job} {i : Nat}
  {s : Document.Step} {script body token : String} {g : Graph}

/-- An outsider comes from a workflow straight to a step of a job. -/
@[mk_iff]
structure IsExposed (k : Knowledge) (t : Classification.Tables) (d : Document) (j : Document.Job)
    (i : Nat) : Prop where
  notFork : k.isFork d.repo = false
  trigger : ∃ tag ∈ injectionTriggers, tag ∈ d.triggers
  needs : knownNeeds d j = []
  isOpen : (Condition.ofText? j.condition).isRestricted = false
  unprotected : j.environment.any (k.isProtected d.repo) = false
  isOpenStep : ∀ s ∈ j.steps.take (i + 1), (Condition.ofText? s.condition).isRestricted = false
  noGate : ∀ s ∈ j.steps.take i, (Classification.classifyStep t s).isGate = false

/-- A context that stands for itself stands in the script of a step. -/
@[mk_iff]
structure Interpolates (s : Document.Step) (token : String) : Prop where
  script : ∃ script ∈ Classification.stepScript (s.uses.bind Uses.parse?) s.run s.inputs,
    ∃ body ∈ Context.bodies script, token ∈ Context.tokens body
  isRoot : Scope.isRoot token = true

instance (k : Knowledge) (t : Classification.Tables) (d : Document) (j : Document.Job) (i : Nat) :
    Decidable (IsExposed k t d j i) :=
  decidable_of_iff _ (isExposed_iff k t d j i).symm

instance (s : Document.Step) (token : String) : Decidable (Interpolates s token) :=
  decidable_of_iff _ (interpolates_iff s token).symm

lemma Interpolates.exists_body (h : Interpolates s token) :
    ∃ body ∈ (Classification.classifyStep t s).contexts, token ∈ Context.tokens body := by
  obtain ⟨script, hs, body, hb, ht⟩ := h.script
  refine ⟨body, ?_, ht⟩
  rw [Classification.classifyStep, hs]
  exact hb

lemma Interpolates.injectable (h : Interpolates s token) :
    (Classification.classifyStep t s).injectable = true := by
  obtain ⟨body, hb, ht⟩ := h.exists_body (t := t)
  have hstatic : Classification.isStatic token = false := (Scope.isRoot_iff.mp h.isRoot).1
  have hbody : Classification.isInjectableBody body = true := by
    rw [Classification.isInjectableBody, Bool.or_eq_true]
    exact Or.inr (List.any_eq_true.mpr ⟨token, ht, by simp [hstatic]⟩)
  exact List.any_eq_true.mpr ⟨body, hb, hbody⟩

/-- Every finding about the step is certain, and names the context. -/
lemma InjectionBy.of_interpolates {path : List Nat} {w : Graph.Workflow} {s' : Graph.Step}
    {walk : Walk} {f : Finding} (h : InjectionBy k g path w s' walk f) (hi : Interpolates s token)
    (hs : s'.traits = Classification.classifyStep t s) :
    f.confidence = .high ∧ ∃ contexts, f.details = .injection contexts ∧
      ⟨token, .direct, none⟩ ∈ contexts := by
  obtain ⟨body, hb, ht⟩ := hi.exists_body (t := t)
  have hmem : ⟨token, .direct, none⟩ ∈ implicatedBehind walk s' := by
    rw [implicatedBehind, hs]
    exact walk.scope.mem_implicated_of_isRoot hb ht hi.isRoot
  rw [h.finding]
  exact ⟨(injectionConfidence_eq_high_iff _).mpr ⟨_, hmem, rfl⟩, _, rfl, hmem⟩

lemma filter_under_injections (k : Knowledge) (g : Graph) (repo step : String) :
    ((findings k g).under repo).filter (isAbout "injection" step) =
      (surest? (((injectionPaths g).filterMap (injectionAlong k g)).filter fun f =>
        f.repo = repo && f.isAbout "injection" step)).toList := by
  have hother : ((pwnRequestPaths g).filterMap (pwnRequestAlong k g)).filter
      (fun f => f.repo = repo && f.isAbout "injection" step) = [] := by
    refine List.filter_eq_nil_iff.mpr fun f hf => ?_
    obtain ⟨p, -, hp⟩ := List.mem_filterMap.mp hf
    simp [isAbout, kind_of_pwnRequestAlong hp]
  have hkept := filter_under_findings k g repo "injection" step
  rw [hother] at hkept
  simpa [surest?] using hkept

lemma IsExposed.isPassable (h : IsExposed k t d j i) (hs : j.steps[i]? = some s) (labeled : Prop) :
    IsPassable t labeled (j.steps.take (i + 1)) := by
  refine ⟨h.isOpenStep, ?_, ?_⟩
  · rw [dropLast_take_succ hs]
    exact fun s' hs' => (not_gate_of_isGate (h.noGate s' hs')).1
  · rw [dropLast_take_succ hs]
    rintro ⟨s', hs', hsoft⟩
    exact absurd ((not_gate_of_isGate (h.noGate s' hs')).2.symm.trans hsoft) Bool.false_ne_true

lemma attackPath_of_approach {triggers : List String} {tag : String} {front xs : List Nat}
    {w x : Nat} {walk : Walk} (hg : Includes t d g) (hd : d.IsNumbered) (hj : j ∈ d.jobs)
    (ha : IsApproach g front) (hfirst : front.head? = some w)
    (hw : g.nodes[w]? = some (workflowNode d)) (hlast : x ∈ front.getLast?)
    (hx : g.nodes[x]? = some (jobNode d j)) (hr : IsRun t g (.ofJob d j) xs j.steps)
    (hs : j.steps[i]? = some s) (htrigger : ∃ trigger ∈ triggers, trigger ∈ d.triggers)
    (hpass : IsPassable t (g.hasTag w labeledTrigger = true) (j.steps.take (i + 1)))
    (htag : tag ∈ (stepNode t (.ofJob d j) s).tags)
    (hwalk : Walk.along k g (front ++ xs.take (i + 1)) = some walk) :
    AttackPath k g triggers tag (front ++ xs.take (i + 1)) (.ofDocument d)
      (.ofDocument t (Parent.ofJob d j).name d.repo j.name s) walk := by
  obtain ⟨y, hy, hend⟩ := hr.exists_getElem? hs
  obtain ⟨trigger, htrigger, hmem⟩ := htrigger
  have htagged : g.hasTag w trigger = true :=
    (hasTag_iff_of_isInitialized hw rfl).mpr (Or.inr hmem)
  have hpath : TaggedPath g w tag (front ++ xs.take (i + 1)) :=
    (hg.taggedPath_iff hd hj ha hfirst hlast hx hr hs).mpr ⟨hpass, htag⟩
  refine ⟨⟨w, mem_tagged_iff.mpr ⟨trigger, htrigger, htagged⟩, hw, mem_paths_iff.mpr hpath⟩, ?_,
    hwalk⟩
  rw [endStep?_eq_some_iff, List.getLast?_append, getLast?_take_succ hy, Option.some_or]
  exact hend

/-- The path straight to an exposed step gives an injection. -/
lemma exists_injectionBy (hg : Includes t d g) (hd : d.IsNumbered) (hj : IsFirstNamed d j)
    (h : IsExposed k t d j i) (hs : j.steps[i]? = some s) (hi : Interpolates s token) :
    ∃ path walk f, InjectionBy k g path (.ofDocument d)
      (.ofDocument t (Parent.ofJob d j).name d.repo j.name s) walk f := by
  have hmem := mem_of_isFirstNamed hj
  obtain ⟨w, hw⟩ := hg.exists_of_mem rfl (workflowNode_mem (isValid_of_mem_jobs hmem))
  obtain ⟨x, hx⟩ := hg.exists_of_mem rfl (jobNode_mem hj)
  obtain ⟨xs, hr⟩ := hg.exists_run hd hj
  have htake : IsRun t g (.ofJob d j) (xs.take (i + 1)) (j.steps.take (i + 1)) :=
    List.forall₂_take _ hr
  obtain ⟨walk, hwalk, hungated⟩ := Walk.along_into_steps hw h.notFork hx h.unprotected htake
    (hg.exists_head_mem_stepsOf hmem hx hr hs)
  have hattack := attackPath_of_approach hg hd hmem
    (hg.isApproach_of_firstJob hmem h.needs h.isOpen hw hx) rfl hw rfl hx hr hs h.trigger
    (h.isPassable hs _) (injectable_mem_tags_iff.mpr hi.injectable) hwalk
  obtain ⟨body, hb, ht⟩ := hi.exists_body (t := t)
  have himplicated := walk.scope.mem_implicated_of_isRoot hb ht hi.isRoot
  exact ⟨_, walk, _, hattack, hungated, List.ne_nil_of_mem himplicated, rfl⟩

/-- In a graph whose keys are distinct the name of a step stands for the step. -/
lemma AttackPath.step_eq {triggers triggers' : List String} {tag tag' : String}
    {path path' : List Nat} {w w' : Graph.Workflow} {s s' : Graph.Step} {walk walk' : Walk}
    (hk : g.IsKeyed) (h : AttackPath k g triggers tag path w s walk)
    (h' : AttackPath k g triggers' tag' path' w' s' walk') (hname : s.name = s'.name) : s = s' := by
  obtain ⟨x, -, hx⟩ := h.last
  obtain ⟨x', -, hx'⟩ := h'.last
  have hkey : (Node.step s).key = (Node.step s').key := congrArg (Key.mk .step) hname
  obtain rfl := hk.eq hx hx' hkey
  exact Node.step.inj (Option.some.inj (hx.symm.trans hx'))

lemma InjectionBy.isAbout_iff {path : List Nat} {w : Graph.Workflow} {s : Graph.Step} {walk : Walk}
    {f : Finding} (h : InjectionBy k g path w s walk f) (repo step : String) :
    (f.repo = repo && f.isAbout "injection" step) = true ↔ w.repo = repo ∧ s.name = step := by
  rw [h.finding]
  simp [Walk.report, isAbout, Finding.kind, Details.kind]

/-- Of the injections into an exposed step one is kept, and it names the context. -/
lemma filter_under_findings_of_isExposed (hg : Includes t d g) (hd : d.IsNumbered)
    (hj : IsFirstNamed d j) (h : IsExposed k t d j i) (hs : j.steps[i]? = some s)
    (hi : Interpolates s token) :
    ∃ f contexts, ((findings k g).under d.repo).filter
        (isAbout "injection" (stepName (Parent.ofJob d j).name i)) = [f] ∧
      f.confidence = .high ∧ f.details = .injection contexts ∧
        ⟨token, .direct, none⟩ ∈ contexts := by
  set step := stepName (Parent.ofJob d j).name i
  set found := ((injectionPaths g).filterMap (injectionAlong k g)).filter fun f =>
    f.repo = d.repo && f.isAbout "injection" step with hfound
  obtain ⟨p₀, walk₀, f₀, h₀⟩ := exists_injectionBy hg hd hj h hs hi
  have hname : (Step.ofDocument t (Parent.ofJob d j).name d.repo j.name s).name = step :=
    congrArg (stepName _) (hd j (mem_of_isFirstNamed hj) i s hs)
  have hmem₀ : f₀ ∈ found := List.mem_filter.mpr
    ⟨List.mem_filterMap.mpr ⟨p₀, injectionAlong_eq_some_iff.mpr ⟨_, _, _, h₀⟩⟩,
      (h₀.isAbout_iff d.repo step).mpr ⟨rfl, hname⟩⟩
  obtain ⟨f, hsurest⟩ := Finding.exists_surest? hmem₀
  -- Another path may have given the finding that is kept, but it ends in the same step.
  obtain ⟨-, before, after, hsplit, -⟩ := Finding.exists_of_surest? hsurest
  obtain ⟨hf, habout⟩ := List.mem_filter.mp (show f ∈ found by simp [hsplit])
  obtain ⟨p, hp, hgive⟩ := List.mem_filterMap.mp hf
  obtain ⟨w, s', walk, hby⟩ := injectionAlong_eq_some_iff.mp ⟨hp, hgive⟩
  have hs' := ((hby.isAbout_iff d.repo step).mp habout).2
  obtain rfl := hby.toAttackPath.step_eq hg.keyed h₀.toAttackPath (hs'.trans hname.symm)
  obtain ⟨hhigh, contexts, hdetails, hctx⟩ := hby.of_interpolates hi rfl
  refine ⟨f, contexts, ?_, hhigh, hdetails, hctx⟩
  rw [filter_under_injections, ← hfound, hsurest]
  rfl

/-- An audit of a workflow on its own reports a context that stands in the script of an exposed
step, exactly once and with certainty, whatever else the workflow holds and whatever its references
turn out to be. Of several jobs with one name this holds of the first one, for the others are not
told from it. -/
theorem direct_injections_reported {text repo ref path : String}
    (hj : IsFirstNamed (Document.parse text repo ref path) j)
    (h : IsExposed k t (Document.parse text repo ref path) j i) (hs : j.steps[i]? = some s)
    (hi : Interpolates s token) :
    let d := Document.parse text repo ref path
    ∃ f contexts, ((audit k t (Graph.empty.addWorkflow t d)).under repo).filter
        (isAbout "injection" (stepName (jobName (Workflow.ofDocument d).name j.name) i)) = [f] ∧
      f.confidence = .high ∧ f.details = .injection contexts ∧
        ⟨token, .direct, none⟩ ∈ contexts := by
  intro d
  have hgrows := grows_resolved k t (ofWorkflow t d)
  exact filter_under_findings_of_isExposed ⟨hgrows, hgrows.keyed (isKeyed_ofWorkflow t d)⟩
    (Document.isNumbered_parse text repo ref path) hj h hs hi

theorem greeted_branch_reported :
    let d := Document.parse ("on: fork\njobs:\n  greet:\n    steps:\n" ++
      "    - run: echo $\x7b\x7b github.head_ref \x7d\x7d\n") "o/r" "HEAD" "ci.yml"
    ∃ j s, IsFirstNamed d j ∧ IsExposed nothingKnown .default d j 0 ∧ j.steps[0]? = some s ∧
      Interpolates s "github.head_ref" ∧
      ∃ f contexts, ((audit nothingKnown .default (Graph.empty.addWorkflow .default d)).under
          "o/r").filter
            (isAbout "injection" (stepName (jobName (Workflow.ofDocument d).name j.name) 0)) = [f] ∧
        f.confidence = .high ∧ f.details = .injection contexts ∧
          ⟨"github.head_ref", .direct, none⟩ ∈ contexts := by
  intro d
  obtain ⟨j, hd⟩ := List.length_eq_one_iff.mp (show d.jobs.length = 1 by decide +kernel)
  have hall : ∀ j ∈ d.jobs, IsExposed nothingKnown .default d j 0 ∧
      ∃ s ∈ j.steps[0]?, Interpolates s "github.head_ref" := by decide +kernel
  obtain ⟨h, s, hs, hi⟩ := hall j (by simp [hd])
  have hj : IsFirstNamed d j := ⟨[], [], hd, by simp⟩
  exact ⟨j, s, hj, h, hs, hi, direct_injections_reported hj h hs hi⟩

/-- A tag on a key is dropped, so that two jobs may have one name. The steps of the second one then
get lost. -/
theorem second_job_of_name_missed :
    let d := Document.parse ("on: fork\njobs:\n  build:\n    steps:\n    - run: ls\n" ++
      "  !x build:\n    steps:\n    - run: echo $\x7b\x7b github.head_ref \x7d\x7d\n")
      "o/r" "HEAD" "ci.yml"
    ∃ j ∈ d.jobs, ∃ s ∈ j.steps[0]?, IsExposed nothingKnown .default d j 0 ∧
      Interpolates s "github.head_ref" ∧
      ((audit nothingKnown .default (Graph.empty.addWorkflow .default d)).under "o/r").filter
        (isAbout "injection" (stepName (jobName (Workflow.ofDocument d).name j.name) 0)) = [] := by
  decide +kernel

end Audit

end WorkflowAudit
