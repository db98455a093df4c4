import WorkflowAudit.Proofs.Audit.FailingJobs
import WorkflowAudit.Proofs.Graph.StepRows

/-! What the gates of a job do to a walk that leaves the job. The walk asks a search of the whole
graph, which wanders off into other jobs and into actions; the answer depends on the steps of the job
alone, and on those up to its first gate. -/

namespace WorkflowAudit

open Audit (nothingKnown)
open WorkflowAudit.Graph (jobNode)
open Source (Knowledge)

namespace Walk

/-- The path does not go on to a step of the node that it is at. -/
def Leaves (g : Graph) (pl : Place) : Prop :=
  ∀ y ∈ pl.following, ∀ i, ¬ g.IsStepOf pl.current i y

/-- The first gate of the node is of a kind, and no step up to it is skipped. -/
def IsGuardedBy (g : Graph) (x : Nat) (kind : Nat → Prop) : Prop :=
  ∃ i y, g.IsFirstGate x i y ∧ g.IsOpenUpTo x i ∧ kind y

variable {g : Graph} {k : Knowledge} {pl : Place} {w : Walk} {j : Graph.Job} {x i y : Nat}
  {tag : String} {p : List Nat}

lemma entersSteps_eq_false_iff : entersSteps g pl = false ↔ Leaves g pl := by
  rw [entersSteps, Leaves]
  cases pl.following with
  | none => simp
  | some y =>
    rw [Option.any_some, Bool.eq_false_iff, Ne, List.contains_iff_mem, Graph.mem_stepsOf_iff]
    simp

lemma reachesOwnStep_iff_isFreeStep (h : g.IsBuilt) (hx : g.nodes[x]? = some (.job j))
    (hopen : g.IsOpen x) :
    reachesOwnStep g x tag = true ↔ ∃ i y, g.IsFreeStep x i y ∧ g.hasTag y tag = true := by
  rw [reachesOwnStep, List.any_eq_true]
  constructor
  · rintro ⟨p, hp, hend⟩
    obtain ⟨y, hlast, hy⟩ := (Option.any_eq_true _ _).mp hend
    obtain ⟨i, hy⟩ := Graph.mem_stepsOf_iff.mp (List.contains_iff_mem.mp hy)
    have hp := Graph.mem_paths_iff.mp hp
    obtain ⟨z, hz, htag⟩ := hp.tagged
    obtain rfl : z = y := Option.some.inj (hz.symm.trans hlast)
    exact ⟨i, z, hp.isFreeStep h hx hy hlast, htag⟩
  · rintro ⟨i, y, hfree, htag⟩
    obtain ⟨p, hp, hlast⟩ := hfree.exists_path h hx hopen htag
    refine ⟨p, hp, (Option.any_eq_true _ _).mpr ⟨y, hlast, ?_⟩⟩
    exact List.contains_iff_mem.mpr (Graph.mem_stepsOf_iff.mpr ⟨i, hfree.step⟩)

/-- The two searches of a walk that leaves a job come to its first gate, if they can. -/
lemma leavesBehind_blocker_iff (h : g.IsBuilt) (hx : g.nodes[pl.current]? = some (.job j))
    (hopen : g.IsOpen pl.current) :
    leavesBehind g pl "permission_blocker" = true ↔
      Leaves g pl ∧ IsGuardedBy g pl.current g.IsHardGate := by
  rw [leavesBehind, Bool.and_eq_true, Bool.not_eq_true', entersSteps_eq_false_iff,
    reachesOwnStep_iff_isFreeStep h hx hopen]
  refine and_congr_right fun _ => exists_congr fun i => exists_congr fun y => ?_
  rw [← and_assoc, Graph.isFirstGate_and_isOpenUpTo_iff, and_assoc]
  refine and_congr_right fun hfree => ?_
  obtain ⟨-, s, hs, -⟩ := hfree.step
  rw [Graph.hasTag_blocker_iff hs]
  exact ⟨fun hhard => ⟨.inl hhard, hhard⟩, fun hhard => hhard.2⟩

lemma leavesBehind_check_iff (h : g.IsBuilt) (hx : g.nodes[pl.current]? = some (.job j))
    (hopen : g.IsOpen pl.current) :
    leavesBehind g pl "permission_check" = true ↔
      Leaves g pl ∧ IsGuardedBy g pl.current g.IsGate := by
  rw [leavesBehind, Bool.and_eq_true, Bool.not_eq_true', entersSteps_eq_false_iff,
    reachesOwnStep_iff_isFreeStep h hx hopen]
  refine and_congr_right fun _ => exists_congr fun i => exists_congr fun y => ?_
  rw [← and_assoc, Graph.isFirstGate_and_isOpenUpTo_iff, and_assoc]
  refine and_congr_right fun hfree => ?_
  obtain ⟨-, s, hs, -⟩ := hfree.step
  rw [h.hasTag_check_iff hs, and_self_iff]

lemma isGuard_iff :
    isGuard k g pl = true ↔ ∃ j, g.nodes[pl.current]? = some (.job j) ∧
      (j.environment.any (k.isProtected j.repo) = true ∨
        leavesBehind g pl "permission_check" = true) := by
  rw [isGuard, Graph.jobAt?]
  cases g.nodes[pl.current]? with
  | none => simp
  | some n => cases n <;> simp

lemma isGuard_of_job (hx : g.nodes[pl.current]? = some (.job j)) :
    isGuard k g pl =
      (j.environment.any (k.isProtected j.repo) || leavesBehind g pl "permission_check") := by
  rw [isGuard, Graph.jobAt?, hx, Option.any_some]

lemma IsGuardedBy.imp {P Q : Nat → Prop} (h : ∀ y, P y → Q y) (hguarded : IsGuardedBy g x P) :
    IsGuardedBy g x Q := by
  obtain ⟨i, y, hfirst, hopen, hP⟩ := hguarded
  exact ⟨i, y, hfirst, hopen, h y hP⟩

/-- A first gate decides of which kind a guard is. -/
lemma not_isGuardedBy_of_first (h : g.IsBuilt) {P : Nat → Prop} (hfirst : g.IsFirstGate x i y)
    (hno : ¬ (g.IsOpenUpTo x i ∧ P y)) : ¬ IsGuardedBy g x P := by
  rintro ⟨i', y', hfirst', hopen, hP⟩
  obtain rfl := hfirst.index_eq hfirst'
  obtain rfl := h.ordered.isStepOf_unique h.named hfirst.step hfirst'.step
  exact hno ⟨hopen, hP⟩

lemma along_eq_none_iff : along k g p = none ↔ ∃ pl ∈ places p, isRuledOut k g pl = true := by
  rw [along]
  split
  · next h => exact iff_of_true rfl (List.any_eq_true.mp h)
  · next h => exact iff_of_false (by simp) fun hany => h (List.any_eq_true.mpr hany)

lemma isRuledOut_iff :
    isRuledOut k g pl = true ↔
      (∃ flow, g.nodes[pl.current]? = some (.workflow flow) ∧ pl.isFirst = true ∧
          k.isFork flow.repo = true) ∨
        (∃ j, g.nodes[pl.current]? = some (.job j)) ∧
          leavesBehind g pl "permission_blocker" = true := by
  rw [isRuledOut]
  cases g.nodes[pl.current]? with
  | none => simp
  | some n => cases n <;> simp

/-- What a job leaves to a walk: it is not ruled out, and the gates of the job add nothing. -/
lemma unaffected_of_not_guarded (h : g.IsBuilt) (hx : g.nodes[pl.current]? = some (.job j))
    (hopen : g.IsOpen pl.current)
    (hno : ∀ P : Nat → Prop, ¬ (Leaves g pl ∧ IsGuardedBy g pl.current P)) :
    isRuledOut k g pl = false ∧ ∀ w, (enter k g w pl).approvalGate =
      (w.approvalGate || j.environment.any (k.isProtected j.repo)) := by
  have hblocker : leavesBehind g pl "permission_blocker" = false :=
    Bool.eq_false_iff.mpr fun hblocker => hno _ ((leavesBehind_blocker_iff h hx hopen).mp hblocker)
  have hcheck : leavesBehind g pl "permission_check" = false :=
    Bool.eq_false_iff.mpr fun hcheck => hno _ ((leavesBehind_check_iff h hx hopen).mp hcheck)
  refine ⟨(isRuledOut_of_job hx).trans hblocker, fun w => ?_⟩
  rw [enter_approvalGate, isGuard_of_job hx, hcheck, Bool.or_false]

/-- An open first gate of a job that a path leaves rules the path out if it is hard, and guards
whatever comes after it if it is soft. -/
lemma affected_of_first (h : g.IsBuilt) (hx : g.nodes[pl.current]? = some (.job j))
    (hopen : g.IsOpen pl.current) (hleaves : Leaves g pl) (hfirst : g.IsFirstGate pl.current i y)
    (hupTo : g.IsOpenUpTo pl.current i) :
    (g.IsHardGate y → isRuledOut k g pl = true) ∧
      (g.IsSoftGate y → isRuledOut k g pl = false ∧
        ∀ (w : Walk) (pls : List Place),
          (pls.foldl (enter k g) (enter k g w pl)).approvalGate = true) := by
  rw [isRuledOut_of_job hx]
  refine ⟨fun hhard => ?_, fun hsoft => ⟨?_, fun w pls => ?_⟩⟩
  · exact (leavesBehind_blocker_iff h hx hopen).mpr ⟨hleaves, i, y, hfirst, hupTo, hhard⟩
  · rw [Bool.eq_false_iff, Ne, leavesBehind_blocker_iff h hx hopen]
    rintro ⟨-, hguarded⟩
    refine not_isGuardedBy_of_first h hfirst ?_ hguarded
    exact fun hboth => h.not_isHardGate hsoft hboth.2
  · have hcheck : leavesBehind g pl "permission_check" = true :=
      (leavesBehind_check_iff h hx hopen).mpr ⟨hleaves, i, y, hfirst, hupTo, .inr hsoft⟩
    rw [foldl_approvalGate, enter_approvalGate, isGuard_of_job hx, hcheck, Bool.or_true,
      Bool.or_true, Bool.true_or]

/-- Of the steps of the jobs on a path only those count whose job the path leaves, and of these only
the first gate, if no step up to it is skipped: a hard one rules the path out, and behind a soft one
all is guarded. -/
theorem left_gates_exact {os : List Operation} (hos : ∀ o ∈ os, o.IsBuilding) {start : Nat}
    (hp : p ∈ (IndexedGraph.ofOperations os).paths start tag) (k : Knowledge) :
    let g := (IndexedGraph.ofOperations os).toGraph
    (∀ pl ∈ places p, ∀ j, g.nodes[pl.current]? = some (.job j) →
      (Leaves g pl → ∀ i y, g.IsFirstGate pl.current i y → g.IsOpenUpTo pl.current i →
        (g.IsHardGate y → along k g p = none) ∧
          (g.IsSoftGate y → isRuledOut k g pl = false ∧
            ∀ (w : Walk) (pls : List Place),
              (pls.foldl (enter k g) (enter k g w pl)).approvalGate = true)) ∧
      (¬ Leaves g pl ∨ (∀ i y, g.IsStepOf pl.current i y → ¬ g.IsGate y) ∨
          (∃ i y, g.IsFirstGate pl.current i y ∧ ¬ g.IsOpenUpTo pl.current i) →
        isRuledOut k g pl = false ∧ ∀ w, (enter k g w pl).approvalGate =
          (w.approvalGate || j.environment.any (k.isProtected j.repo)))) ∧
      (along k g p = none ↔ ∃ pl ∈ places p,
        (∃ flow, g.nodes[pl.current]? = some (.workflow flow) ∧ pl.isFirst = true ∧
          k.isFork flow.repo = true) ∨
        (∃ j, g.nodes[pl.current]? = some (.job j)) ∧ Leaves g pl ∧
          IsGuardedBy g pl.current g.IsHardGate) ∧
      ∀ walk, along k g p = some walk → (walk.approvalGate = true ↔ ∃ pl ∈ places p,
        ∃ j, g.nodes[pl.current]? = some (.job j) ∧
          (j.environment.any (k.isProtected j.repo) = true ∨
            Leaves g pl ∧ IsGuardedBy g pl.current g.IsSoftGate)) := by
  intro g
  have h : g.IsBuilt := Graph.isBuilt_ofOperations hos
  have hopen : ∀ pl ∈ places p, g.IsOpen pl.current := fun pl hpl =>
    (Graph.mem_paths_iff.mp hp).isOpen _ (current_mem_of_mem_placesFrom hpl)
  refine ⟨fun pl hpl j hx => ⟨fun hleaves i y hfirst hupTo => ?_, fun hcases => ?_⟩, ?_,
    fun walk hwalk => ?_⟩
  · obtain ⟨hhard, hsoft⟩ := affected_of_first h hx (hopen pl hpl) hleaves hfirst hupTo (k := k)
    exact ⟨fun hgate => along_eq_none_iff.mpr ⟨pl, hpl, hhard hgate⟩, hsoft⟩
  · apply unaffected_of_not_guarded h hx (hopen pl hpl)
    rintro P ⟨hleaves, hguarded⟩
    obtain hstays | hno | ⟨i, y, hfirst, hskips⟩ := hcases
    · exact hstays hleaves
    · obtain ⟨i, y, hfirst, -, -⟩ := hguarded
      exact hno i y hfirst.step hfirst.gate
    · exact not_isGuardedBy_of_first h hfirst (fun hboth => hskips hboth.1) hguarded
  · rw [along_eq_none_iff]
    refine exists_congr fun pl => and_congr_right fun hpl => ?_
    rw [isRuledOut_iff]
    refine or_congr_right (and_congr_right fun ⟨j, hx⟩ => ?_)
    exact leavesBehind_blocker_iff h hx (hopen pl hpl)
  · rw [approvalGate_of_along hwalk, List.any_eq_true]
    refine exists_congr fun pl => and_congr_right fun hpl => ?_
    rw [isGuard_iff]
    refine exists_congr fun j => and_congr_right fun hx => or_congr_right ?_
    rw [leavesBehind_check_iff h hx (hopen pl hpl)]
    refine and_congr_right fun hleaves => ⟨?_, .imp fun y => .inr⟩
    rintro ⟨i, y, hfirst, hupTo, hhard | hsoft⟩
    · have hruled := (affected_of_first h hx (hopen pl hpl) hleaves hfirst hupTo (k := k)).1 hhard
      exact absurd (((along_eq_some_iff.mp hwalk).1 pl hpl).symm.trans hruled) Bool.false_ne_true
    · exact ⟨i, y, hfirst, hupTo, hsoft⟩

/-- A workflow whose second job waits for one that asks for permissions and goes on. -/
def asking : Document where
  repo := "o/r"
  ref := "HEAD"
  path := "ci.yml"
  content := some
    { isComposite := false
      name := none
      triggers := ["pull_request_target"]
      env := []
      jobs :=
        [⟨"check", none, [], [], [], [], none, none, none, none, none,
            [⟨0, none, none, none, some "ls", [], [], none⟩,
              ⟨1, none, none, some "actions-cool/check-user-permission@v2", none, [], [], none⟩]⟩,
          ⟨"build", none, ["check"], [], [], [], none, none, none, none, none,
            [⟨0, none, none, none, some "make", [], [], none⟩]⟩] }

lemma isBuilding_asking : ∀ o ∈ [Operation.addWorkflow .default asking], o.IsBuilding := by
  have hindexes : ∀ j ∈ asking.jobs, j.steps.map (·.index) = List.range j.steps.length := by decide
  rw [List.forall_mem_singleton]
  refine ⟨rfl, by simp, fun j hj i s hs => ?_⟩
  have hindex : (j.steps.map (·.index))[i]? = some s.index := by rw [List.getElem?_map, hs]; rfl
  rw [hindexes j hj, List.getElem?_range (List.getElem?_eq_some_iff.mp hs).1] at hindex
  exact (Option.some.inj hindex).symm

lemma asking_graph :
    let g := (IndexedGraph.ofOperations [.addWorkflow .default asking]).toGraph
    [1, 2, 3, 7] ∈ g.paths 1 "StepNode" ∧ g.IsStepOf 2 0 4 ∧ g.IsStepOf 2 1 5 ∧
      (∃ n ∈ g.nodes[4]?, n.isRestricted = false ∧ n.traits?.any (·.hardGate) = false ∧
        n.traits?.any (·.softGate) = false) ∧
      (∃ n ∈ g.nodes[5]?, n.isRestricted = false ∧ n.traits?.any (·.softGate) = true) ∧
      (∃ j ∈ asking.jobs, g.nodes[2]? = some (jobNode asking j)) ∧
      entersSteps g ⟨false, some 1, 2, some 3⟩ = false := by
  dsimp only
  rw [(IndexedGraph.represents_ofOperations _).graph]
  decide +kernel

/-- The first job is left for the second one, at the second step a soft gate. -/
theorem asking_guards :
    let x := IndexedGraph.ofOperations [.addWorkflow .default asking]
    let pl : Place := ⟨false, some 1, 2, some 3⟩
    (∀ o ∈ [Operation.addWorkflow .default asking], o.IsBuilding) ∧
      [1, 2, 3, 7] ∈ x.paths 1 "StepNode" ∧ pl ∈ places [1, 2, 3, 7] ∧
      (∃ j, x.nodes[2]? = some (.job j)) ∧ Leaves x.toGraph pl ∧
      x.IsFirstGate 2 1 5 ∧ x.IsOpenUpTo 2 1 ∧ x.IsSoftGate 5 ∧
      isRuledOut nothingKnown x.toGraph pl = false ∧ ∀ (w : Walk) (pls : List Place),
        (pls.foldl (enter nothingKnown x.toGraph) (enter nothingKnown x.toGraph w pl)).approvalGate =
          true := by
  intro x pl
  have hos := isBuilding_asking
  have h : x.toGraph.IsBuilt := Graph.isBuilt_ofOperations hos
  obtain ⟨hp, hstep, hgate, ⟨n, hn, hopen, hnotHard, hnotSoft⟩, ⟨m, hm, hopen', hsoft⟩,
    ⟨j, -, hj⟩, hleaves⟩ := asking_graph
  have hunique {i y z : Nat} (hy : x.IsStepOf 2 i y) (hz : x.IsStepOf 2 i z) : y = z :=
    h.ordered.isStepOf_unique h.named hy hz
  have hupTo : x.IsOpenUpTo 2 1 := by
    intro k hk z hz
    obtain rfl | rfl : k = 0 ∨ k = 1 := by omega
    · exact hunique hstep hz ▸ ⟨n, hn, hopen⟩
    · exact hunique hgate hz ▸ ⟨m, hm, hopen'⟩
  have hfirst : x.IsFirstGate 2 1 5 := by
    refine ⟨hgate, .inr ⟨m, hm, hsoft⟩, fun k hk z hz => ?_⟩
    obtain rfl : k = 0 := by omega
    rw [← hunique hstep hz, Graph.IsGate, Graph.isHardGate_iff hn, Graph.isSoftGate_iff hn,
      hnotHard, hnotSoft, or_self]
    exact Bool.false_ne_true
  have hplace : pl ∈ places [1, 2, 3, 7] := by decide
  have hleaves : Leaves x.toGraph pl := entersSteps_eq_false_iff.mp hleaves
  have hguards := ((left_gates_exact hos hp nothingKnown).1 pl hplace _ hj).1 hleaves 1 5
    hfirst hupTo
  have hsoft : x.IsSoftGate 5 := ⟨m, hm, hsoft⟩
  exact ⟨hos, hp, hplace, ⟨_, hj⟩, hleaves, hfirst, hupTo, hsoft, hguards.2 hsoft⟩

end Walk

end WorkflowAudit
