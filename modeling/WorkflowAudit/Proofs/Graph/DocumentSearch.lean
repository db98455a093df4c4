import WorkflowAudit.Proofs.Graph.OwnEdges

/-! The search of a workflow's own graph comes to a step just in case an outsider comes to the job
of the step and then through the steps before it. -/

namespace WorkflowAudit.Graph

variable {t : Classification.Tables} {d : Document} {j j' : Document.Job}
  {s s' : Document.Step} {g : Graph} {a b : Key} {r : Relation} {n m : Node} {x y w i : Nat}
  {tag : String}

/-- The names of jobs that the conditions of jobs let an outsider come to. -/
inductive IsReached (d : Document) : String → Prop
  | first {j : Document.Job} : j ∈ d.jobs → knownNeeds d j = [] →
      (Condition.ofText? j.condition).isRestricted = false → IsReached d j.name
  | behind {j : Document.Job} {need : String} : j ∈ d.jobs → need ∈ knownNeeds d j →
      IsReached d need → (Condition.ofText? j.condition).isRestricted = false → IsReached d j.name

/-- The names of jobs that an outsider comes to past jobs of one kind only. -/
inductive IsReachedPast (d : Document) (P : Document.Job → Prop) : String → Prop
  | first {j : Document.Job} : j ∈ d.jobs → knownNeeds d j = [] →
      (Condition.ofText? j.condition).isRestricted = false → IsReachedPast d P j.name
  | behind {j j' : Document.Job} : j ∈ d.jobs → j' ∈ d.jobs → j'.name ∈ knownNeeds d j → P j' →
      IsReachedPast d P j'.name → (Condition.ofText? j.condition).isRestricted = false →
      IsReachedPast d P j.name

lemma isReachedPast_true_iff {name : String} :
    IsReachedPast d (fun _ => True) name ↔ IsReached d name := by
  constructor
  · intro h
    induction h with
    | first hj hneeds hopen => exact .first hj hneeds hopen
    | behind hj _ hneed _ _ hopen ih => exact .behind hj hneed ih hopen
  · intro h
    induction h with
    | first hj hneeds hopen => exact .first hj hneeds hopen
    | behind hj hneed _ hopen ih =>
      obtain ⟨j', hj', rfl⟩ := exists_of_mem_knownNeeds hneed
      exact .behind hj hj' hneed trivial ih hopen

/-- Jobs and steps can be told apart by their names and numbers. -/
structure IsRegular (d : Document) : Prop where
  names : (d.jobs.map (·.name)).Nodup
  numbered : d.IsNumbered

lemma IsRegular.eq_of_name (hd : IsRegular d) (hj : j ∈ d.jobs) (hj' : j' ∈ d.jobs)
    (h : j.name = j'.name) : j = j' :=
  List.inj_on_of_nodup_map hd.names hj hj' h

lemma IsRegular.isFirstNamed (hd : IsRegular d) (hj : j ∈ d.jobs) : IsFirstNamed d j := by
  obtain ⟨before, after, heq⟩ := List.append_of_mem hj
  refine ⟨before, after, heq, fun j' hj' hname => ?_⟩
  have hnames := hd.names
  rw [heq, List.map_append, List.map_cons, List.nodup_append] at hnames
  exact hnames.2.2 _ (List.mem_map.mpr ⟨j', hj', rfl⟩) _ (List.mem_cons_self) hname

lemma IsRegular.jobNode_mem (hd : IsRegular d) (hj : j ∈ d.jobs) :
    jobNode d j ∈ (ofWorkflow t d).nodes :=
  Graph.jobNode_mem (hd.isFirstNamed hj)

lemma IsRegular.stepNode_mem (hd : IsRegular d) (hj : j ∈ d.jobs) (hs : j.steps[i]? = some s) :
    stepNode t (.ofJob d j) s ∈ (ofWorkflow t d).nodes :=
  stepNode_mem_of_isNumbered hd.numbered (hd.isFirstNamed hj) hs

lemma Encloses.exists_of_successor (hg : Encloses t d g) (hy : g.nodes[y]? = some m)
    (hown : IsOwnKey d m.key) (h : y ∈ g.successors x) :
    ∃ n r, g.nodes[x]? = some n ∧ .edge n.key m.key r ∈ workflowFacts t d ∧
      g.isEntry ⟨x, y, r⟩ = true := by
  obtain ⟨-, r, he, hentry⟩ := mem_successors_iff.mp h
  obtain ⟨n, m', hn, hm', hstated⟩ := hg.edges x y r he
  obtain rfl := Option.some.inj (hy.symm.trans hm')
  exact ⟨n, r, hn, hstated (Or.inr hown), hentry⟩

/-- A job is entered from a job that it needs, or from the workflow if there is none. -/
lemma IsRegular.of_successor_job (hd : IsRegular d) (hg : Encloses t d g) (hj : j ∈ d.jobs)
    (hy : g.nodes[y]? = some (jobNode d j)) (h : y ∈ g.successors x) :
    (knownNeeds d j = [] ∧ g.nodes[x]? = some (workflowNode d)) ∨
      ∃ j' ∈ d.jobs, j'.name ∈ knownNeeds d j ∧ g.nodes[x]? = some (jobNode d j') := by
  obtain ⟨n, r, hn, hf, -⟩ := hg.exists_of_successor hy ⟨j, hj, Or.inl rfl⟩ h
  rcases edge_mem_workflowFacts hf with hkind | ⟨j₀, hj₀, hf⟩
  · cases hkind
  rcases edge_mem_jobFacts hf with ⟨hkey, hsource⟩ | hkind | hf
  · obtain rfl := hd.eq_of_name hj hj₀ (key_jobNode_inj.mp hkey)
    rcases hsource with ⟨need, hneed, hkey'⟩ | ⟨hnone, hkey'⟩
    · obtain ⟨j', hj', rfl⟩ := exists_of_mem_knownNeeds hneed
      obtain rfl := hg.node_eq (hd.jobNode_mem hj') rfl hn hkey'
      exact Or.inr ⟨j', hj', hneed, hn⟩
    · obtain rfl := hg.node_eq (workflowNode_mem (isValid_of_mem_jobs hj)) rfl hn hkey'
      exact Or.inl ⟨hnone, hn⟩
  · cases hkind
  · rcases edge_mem_stepFacts hf with
      ⟨s, -, -, hkey, -⟩ | (⟨s, -, hprev, -⟩ | ⟨_, _, _, _, _, _, hkey⟩) | hkind
    · cases hkey
    · cases hprev
    · cases hkey
    · cases hkind

/-- A step is entered from the step before it, the first one from its job. -/
lemma IsRegular.of_successor_step (hd : IsRegular d) (hg : Encloses t d g) (hj : j ∈ d.jobs)
    (hs : j.steps[i]? = some s) (hy : g.nodes[y]? = some (stepNode t (.ofJob d j) s))
    (h : y ∈ g.successors x) :
    (i = 0 ∧ g.nodes[x]? = some (jobNode d j)) ∨
      ∃ i' s', i = i' + 1 ∧ j.steps[i']? = some s' ∧
        g.nodes[x]? = some (stepNode t (.ofJob d j) s') := by
  obtain ⟨n, r, hn, hf, hentry⟩ :=
    hg.exists_of_successor hy (isOwnKey_step_iff.mpr ⟨j, hj, rfl⟩) h
  rcases edge_mem_workflowFacts hf with hkind | ⟨j₀, hj₀, hf⟩
  · cases hkind
  rcases edge_mem_jobFacts hf with ⟨hkey, -⟩ | hkind | hf
  · cases hkey
  · cases hkind
  rcases edge_mem_stepFacts hf with
    ⟨s₀, -, hkey', hkey, rfl⟩ | (⟨_, -, hprev, -⟩ | ⟨i₀, s₁, s₂, hs₁, hs₂, hkey', hkey⟩) | hkind
  · obtain rfl := hd.eq_of_name hj hj₀ (key_stepNode_inj.mp hkey).1
    have hindex : s.index = 0 := by simpa [isEntry, hy, stepNode, Step.ofDocument] using hentry
    rw [hd.numbered j hj i s hs] at hindex
    obtain rfl := hg.node_eq (hd.jobNode_mem hj) rfl hn hkey'
    exact Or.inl ⟨hindex, hn⟩
  · cases hprev
  · obtain ⟨hname, hindex⟩ := key_stepNode_inj.mp hkey
    obtain rfl := hd.eq_of_name hj hj₀ hname
    rw [hd.numbered j hj i s hs, hd.numbered j hj (i₀ + 1) s₂ hs₂] at hindex
    obtain rfl := hg.node_eq (hd.stepNode_mem hj hs₁) rfl hn hkey'
    exact Or.inr ⟨i₀, s₁, hindex, hs₁, hn⟩
  · cases hkind

variable {front : List Nat}

lemma IsApproach.left_of_append {g : Graph} {l l' : List Nat} (h : IsApproach g (l ++ l')) :
    IsApproach g l :=
  ⟨h.consecutive.left_of_append, h.simple.of_append_left,
    fun x hx => h.isOpen x (List.mem_append_left _ hx),
    fun x hx => h.noStep x (List.mem_append_left _ hx)⟩

lemma IsApproach.concat {g : Graph} {job : Job} (h : IsApproach g front)
    (hx : x ∈ front.getLast?) (hxy : y ∈ g.successors x) (hfresh : y ∉ front)
    (hy : g.nodes[y]? = some (.job job)) (hopen : job.condition.isRestricted = false) :
    IsApproach g (front ++ [y]) := by
  refine ⟨?_, ?_, ?_, ?_⟩
  · refine List.isChain_append.mpr ⟨h.consecutive, List.isChain_singleton _, ?_⟩
    intro x' hx' y' hy'
    obtain rfl := Option.mem_unique hx hx'
    obtain rfl : y = y' := by simpa using hy'
    exact hxy
  · exact List.nodup_append'.mpr ⟨h.simple, List.nodup_singleton _, by simpa using hfresh⟩
  · intro z hz
    rcases List.mem_append.mp hz with hz | hz
    · exact h.isOpen z hz
    · obtain rfl := List.mem_singleton.mp hz
      exact (isOpen_iff hy).mpr hopen
  · intro z hz n hn
    rcases List.mem_append.mp hz with hz | hz
    · exact h.noStep z hz n hn
    · obtain rfl := List.mem_singleton.mp hz
      obtain rfl := Option.some.inj (hy.symm.trans hn)
      rfl

lemma eq_nil_of_nodup_append {α : Type} {l l' : List α} {a : α} (h : (l ++ l').Nodup)
    (hhead : a ∈ (l ++ l').head?) (ha : a ∈ l') : l = [] := by
  cases l with
  | nil => rfl
  | cons b l =>
    obtain rfl : b = a := by simpa using hhead
    exact absurd ha ((List.nodup_append'.mp h).2.2 List.mem_cons_self)

variable {P : Document.Job → Prop}

/-- A simple way through open nodes from a workflow to a job of another one comes in at the
latter and passes jobs that are reached. -/
lemma IsRegular.isReachedPast_of_chain (hd : IsRegular d) (hg : Encloses t d g) (hj : j ∈ d.jobs)
    (hhead : ∀ x ∈ front.head?, ∃ flow, g.nodes[x]? = some (.workflow flow))
    (hchain : front.IsChain fun x y => y ∈ g.successors x)
    (hpast : front.IsChain fun x y => ∀ j₁ ∈ d.jobs, ∀ j₂ ∈ d.jobs,
      g.nodes[x]? = some (jobNode d j₁) → g.nodes[y]? = some (jobNode d j₂) → P j₁)
    (hsimple : front.Nodup) (hopen : ∀ x ∈ front, g.IsOpen x) (hlast : y ∈ front.getLast?)
    (hy : g.nodes[y]? = some (jobNode d j)) :
    IsReachedPast d P j.name ∧ ∃ before rest, front = before ++ rest ∧ IsApproach g rest ∧
      ∃ w ∈ rest.head?, g.nodes[w]? = some (workflowNode d) := by
  -- From the end of the way, since the edges are known by what they lead to.
  induction front using List.reverseRecOn generalizing j y with
  | nil => simp at hlast
  | append_singleton q z ih =>
    obtain rfl : z = y := by simpa using hlast
    have hjob : (Condition.ofText? j.condition).isRestricted = false :=
      (isOpen_iff hy).mp (hopen z (by simp))
    obtain ⟨hq, -, hstep⟩ := List.isChain_append.mp hchain
    obtain ⟨hqpast, -, hpasses⟩ := List.isChain_append.mp hpast
    obtain ⟨hnodup, -, hfresh⟩ := List.nodup_append'.mp hsimple
    rcases List.eq_nil_or_concat' q with rfl | ⟨q', x, rfl⟩
    · obtain ⟨flow, hflow⟩ := hhead z rfl
      exact absurd (hflow.symm.trans hy) (by simp [jobNode])
    · have hx : x ∈ (q' ++ [x]).getLast? := by simp
      have hzx := hstep x hx z rfl
      rcases hd.of_successor_job hg hj hy hzx with ⟨hneeds, hxw⟩ | ⟨j', hj', hneed, hx'⟩
      · exact ⟨.first hj hneeds hjob, q', [x, z], by simp,
          hg.isApproach_of_firstJob hj hneeds hjob hxw hy, x, rfl, hxw⟩
      · have hqhead : ∀ a ∈ (q' ++ [x]).head?, ∃ flow, g.nodes[a]? = some (.workflow flow) := by
          intro a ha
          refine hhead a ?_
          rw [List.head?_append, Option.mem_def.mp ha, Option.some_or, Option.mem_def]
        obtain ⟨hreached, before, rest, hsplit, happroach, w, hw, hnode⟩ := ih hj' hqhead hq hqpast
          hnodup (fun x hx => hopen x (List.mem_append_left _ hx)) hx hx'
        have hrest : x ∈ rest.getLast? := by
          have hne : rest ≠ [] := List.ne_nil_of_mem (List.mem_of_head? hw)
          rw [hsplit, List.getLast?_append_of_ne_nil _ hne] at hx
          exact hx
        have hnew : z ∉ rest := fun hz =>
          hfresh (hsplit ▸ List.mem_append_right _ hz) (List.mem_singleton.mpr rfl)
        refine ⟨.behind hj hj' hneed (hpasses x hx z rfl j' hj' j hj hx' hy) hreached hjob, before,
          rest ++ [z], by rw [hsplit, List.append_assoc], happroach.concat hrest hzx hnew hy hjob,
          w, ?_, hnode⟩
        rw [List.head?_append, Option.mem_def.mp hw, Option.some_or, Option.mem_def]

/-- Every job that is reached has an approach, past jobs of the kind. -/
lemma IsRegular.exists_approach (hd : IsRegular d) (hg : Includes t d g) {name : String}
    (h : IsReachedPast d P name) (hw : g.nodes[w]? = some (workflowNode d)) :
    ∃ front, ∃ x ∈ front.getLast?, ∃ j ∈ d.jobs, j.name = name ∧ front.head? = some w ∧
      IsApproach g front ∧ g.nodes[x]? = some (jobNode d j) ∧ ∀ y ∈ front.dropLast,
        g.nodes[y]? = some (workflowNode d) ∨ ∃ j' ∈ d.jobs, P j' ∧
          g.nodes[y]? = some (jobNode d j') := by
  induction h with
  | @first j hj hneeds hopen =>
    obtain ⟨x, hx⟩ := hg.exists_of_mem rfl (hd.jobNode_mem hj)
    refine ⟨[w, x], x, rfl, j, hj, rfl, rfl, hg.isApproach_of_firstJob hj hneeds hopen hw hx, hx,
      fun y hy => Or.inl ?_⟩
    rw [List.mem_singleton.mp hy, hw]
  | @behind j j' hj hj' hneed hP _ hopen ih =>
    obtain ⟨front, x, hx, j₀, hj₀, hname, hhead, happroach, hx', hpast⟩ := ih
    obtain rfl := hd.eq_of_name hj₀ hj' hname
    obtain ⟨y, hy⟩ := hg.exists_of_mem rfl (hd.jobNode_mem (t := t) hj)
    -- A job that the approach passes already is reached by stopping there.
    by_cases hmem : y ∈ front
    · obtain ⟨l, l', rfl⟩ := List.append_of_mem hmem
      rw [List.dropLast_append_of_ne_nil (List.cons_ne_nil y l')] at hpast
      rw [List.append_cons] at happroach
      refine ⟨l ++ [y], y, by simp, j, hj, rfl, ?_, happroach.left_of_append, hy, ?_⟩
      · cases l <;> simpa using hhead
      · rw [List.dropLast_concat]
        exact fun z hz => hpast z (List.mem_append_left _ hz)
    · have hxy := hg.waitingJob_successor hj hneed hx' hy
      refine ⟨front ++ [y], y, by simp, j, hj, rfl, ?_, happroach.concat hx hxy hmem hy hopen, hy,
        ?_⟩
      · rw [List.head?_append, hhead, Option.some_or]
      · rw [List.dropLast_concat, ← List.dropLast_append_getLast? x hx]
        intro z hz
        rcases List.mem_append.mp hz with hz | hz
        · exact hpast z hz
        · exact Or.inr ⟨j₀, hj', hP, List.mem_singleton.mp hz ▸ hx'⟩

/-- A way to a step runs through all the steps before it, behind a way to their job. -/
lemma IsRegular.exists_run_of_chain (hd : IsRegular d) (hg : Encloses t d g) (hj : j ∈ d.jobs)
    (hs : j.steps[i]? = some s) {p : List Nat} {z : Nat} (hhead : p.head? = some z)
    (hz : g.nodes[z]? = some n) (hkind : n.kind ≠ .step)
    (hchain : p.IsChain fun x y => y ∈ g.successors x) (hlast : y ∈ p.getLast?)
    (hy : g.nodes[y]? = some (stepNode t (.ofJob d j) s)) :
    ∃ front xs, p = front ++ xs ∧ IsRun t g (.ofJob d j) xs (j.steps.take (i + 1)) ∧
      ∃ x ∈ front.getLast?, g.nodes[x]? = some (jobNode d j) := by
  induction p using List.reverseRecOn generalizing i s y with
  | nil => simp at hlast
  | append_singleton q y' ih =>
    obtain rfl : y' = y := by simpa using hlast
    obtain ⟨hq, -, hstep⟩ := List.isChain_append.mp hchain
    have htake : j.steps.take (i + 1) = j.steps.take i ++ [s] := by
      rw [List.take_add_one, hs, Option.toList_some]
    rcases List.eq_nil_or_concat' q with rfl | ⟨q', x, rfl⟩
    · obtain rfl : y' = z := Option.some.inj hhead
      obtain rfl := Option.some.inj (hz.symm.trans hy)
      exact absurd rfl hkind
    · have hx : x ∈ (q' ++ [x]).getLast? := by simp
      have hqhead : (q' ++ [x] ++ [y']).head? = (q' ++ [x]).head? :=
        List.head?_append_of_ne_nil _ (by simp)
      rw [hqhead] at hhead
      rcases hd.of_successor_step hg hj hs hy (hstep x hx y' rfl) with
        ⟨rfl, hx'⟩ | ⟨i', s', rfl, hs', hx'⟩
      · refine ⟨q' ++ [x], [y'], rfl, ?_, x, hx, hx'⟩
        rw [htake]
        exact .cons hy .nil
      · obtain ⟨front, xs, hsplit, hrun, hfront⟩ := ih hs' hhead hq hx hx'
        refine ⟨front, xs ++ [y'], by rw [hsplit, List.append_assoc], ?_, hfront⟩
        rw [htake]
        exact List.rel_append hrun (.cons hy .nil)

/-- From the job itself a simple way to a step runs straight through the steps before it. -/
lemma IsRegular.exists_run_of_job (hd : IsRegular d) (hg : Encloses t d g) (hj : j ∈ d.jobs)
    (hs : j.steps[i]? = some s) {p : List Nat} (hhead : p.head? = some x)
    (hx : g.nodes[x]? = some (jobNode d j)) (hchain : p.IsChain fun x y => y ∈ g.successors x)
    (hsimple : p.Nodup) (hlast : y ∈ p.getLast?)
    (hy : g.nodes[y]? = some (stepNode t (.ofJob d j) s)) :
    ∃ xs, p = [x] ++ xs ∧ IsRun t g (.ofJob d j) xs (j.steps.take (i + 1)) := by
  have hkind : (jobNode d j).kind ≠ .step := by simp [jobNode, Node.kind]
  obtain ⟨front, xs, rfl, hrun, x', hx', hnode⟩ :=
    hd.exists_run_of_chain hg hj hs hhead hx hkind hchain hlast hy
  obtain rfl := hg.keyed.eq hnode hx rfl
  rw [List.head?_append_of_ne_nil _ (List.ne_nil_of_mem (List.mem_of_getLast? hx'))] at hhead
  rw [← List.dropLast_append_getLast? x' hx'] at hsimple hhead ⊢
  rw [eq_nil_of_nodup_append hsimple.of_append_left hhead (List.mem_singleton.mpr rfl)]
  exact ⟨xs, rfl, hrun⟩

lemma workflowNode_hasTag_labeled {g : Graph} (hw : g.nodes[w]? = some (workflowNode d)) :
    g.hasTag w labeledTrigger = true ↔ labeledTrigger ∈ d.triggers := by
  rw [hasTag_iff_of_isInitialized hw rfl]
  have hkind : ¬ labeledTrigger = Kind.workflow.tag := by decide
  exact or_iff_right hkind

/-- The search from a workflow, for a tag, comes to a step of a job. -/
def ComesTo (t : Classification.Tables) (d : Document) (tag : String) (job : String) (i : Nat) :
    Prop :=
  ∃ w ∈ (ofWorkflow t d).workflowNumber? d, ∃ p ∈ (ofWorkflow t d).paths w tag,
    ∃ y ∈ p.getLast?, (ofWorkflow t d).nodes[y]?.map (·.key) =
      some ⟨.step, stepName (jobName (Workflow.ofDocument d).name job) i⟩

/-- The tags of a step, whatever it belongs to. -/
def stepTags (t : Classification.Tables) (s : Document.Step) : List String :=
  Kind.step.tag :: Node.traitTags (Classification.classifyStep t s)

lemma mem_tags_stepNode {parent : Parent} :
    tag ∈ (stepNode t parent s).tags ↔ tag ∈ stepTags t s := by
  rw [Node.mem_tags_iff rfl]
  exact List.mem_cons.symm

lemma workflowNumber?_eq_some_iff (hv : d.isValid = true) :
    (ofWorkflow t d).workflowNumber? d = some w ↔
      (ofWorkflow t d).nodes[w]? = some (workflowNode d) := by
  rw [workflowNumber?, if_pos hv]
  exact (isKeyed_ofWorkflow t d).number?_eq_some_iff (workflowNode_mem hv)

lemma IsRegular.key_eq_iff (hd : IsRegular d) (hj : j ∈ d.jobs) (hs : j.steps[i]? = some s) :
    (ofWorkflow t d).nodes[y]?.map (·.key) =
        some ⟨.step, stepName (jobName (Workflow.ofDocument d).name j.name) i⟩ ↔
      (ofWorkflow t d).nodes[y]? = some (stepNode t (.ofJob d j) s) := by
  have hkey : (stepNode t (.ofJob d j) s).key =
      ⟨.step, stepName (jobName (Workflow.ofDocument d).name j.name) i⟩ := by
    rw [key_stepNode, hd.numbered j hj i s hs]
    rfl
  rw [← hkey, ← (isKeyed_ofWorkflow t d).number?_eq_some_iff (hd.stepNode_mem hj hs)]
  constructor
  · intro h
    obtain ⟨n, hn, hnk⟩ := Option.map_eq_some_iff.mp h
    rw [← hnk]
    exact (isKeyed_ofWorkflow t d).number? hn
  · intro h
    obtain ⟨n, hn, hnk⟩ := exists_of_number? h
    rw [hn, Option.map_some, hnk]

/-- The search comes to a step just in case its job is reached, the steps up to it let an outsider
through, and it carries the tag. -/
lemma IsRegular.comesTo_iff (hd : IsRegular d) (hj : j ∈ d.jobs) (hs : j.steps[i]? = some s) :
    ComesTo t d tag j.name i ↔ IsReached d j.name ∧
      IsPassable t (labeledTrigger ∈ d.triggers) (j.steps.take (i + 1)) ∧ tag ∈ stepTags t s := by
  have hv := isValid_of_mem_jobs hj
  constructor
  · rintro ⟨w, hw, p, hp, y, hy, hkey⟩
    have hw' := (workflowNumber?_eq_some_iff hv).mp hw
    have ht := mem_paths_iff.mp hp
    have hkind : (workflowNode d).kind ≠ .step := by simp [workflowNode, Node.kind]
    obtain ⟨front, xs, rfl, hrun, x, hx, hx'⟩ := hd.exists_run_of_chain (encloses_ofWorkflow t d)
      hj hs ht.begins hw' hkind ht.consecutive hy ((hd.key_eq_iff hj hs).mp hkey)
    have hhead : front.head? = some w := by
      rw [← List.head?_append_of_ne_nil _ (List.ne_nil_of_mem (List.mem_of_getLast? hx))]
      exact ht.begins
    obtain ⟨hreached, before, rest, rfl, happroach, w', hrest, hnode⟩ :=
      hd.isReachedPast_of_chain (P := fun _ => True) (encloses_ofWorkflow t d) hj
        (fun y hy => ⟨_, Option.some.inj (hhead.symm.trans hy) ▸ hw'⟩) ht.consecutive.left_of_append
        (ht.consecutive.left_of_append.imp fun _ _ _ _ _ _ _ _ _ => trivial)
        ht.simple.of_append_left (fun y hy => ht.isOpen y (List.mem_append_left _ hy)) hx hx'
    obtain rfl := (isKeyed_ofWorkflow t d).eq hnode hw' rfl
    obtain rfl := eq_nil_of_nodup_append ht.simple.of_append_left hhead (List.mem_of_head? hrest)
    obtain ⟨hpass, htag⟩ :=
      (taggedPath_append_take_iff happroach hhead hrun hs ht.consecutive ht.simple).mp ht
    rw [workflowNode_hasTag_labeled hw'] at hpass
    exact ⟨isReachedPast_true_iff.mp hreached, hpass, mem_tags_stepNode.mp htag⟩
  · rintro ⟨hreached, hpass, htag⟩
    obtain ⟨w, hw⟩ := List.mem_iff_getElem?.mp (workflowNode_mem (t := t) hv)
    obtain ⟨front, x, hx, j', hj', hname, hhead, happroach, hx', -⟩ :=
      hd.exists_approach (includes_ofWorkflow t d) (isReachedPast_true_iff.mpr hreached) hw
    obtain rfl := hd.eq_of_name hj' hj hname
    have hg := includes_ofWorkflow t d
    obtain ⟨xs, hrun⟩ := hg.exists_run hd.numbered (hd.isFirstNamed hj)
    obtain ⟨y, hy, hys⟩ := hrun.exists_getElem? hs
    rw [← workflowNode_hasTag_labeled hw] at hpass
    refine ⟨w, (workflowNumber?_eq_some_iff hv).mpr hw, front ++ xs.take (i + 1),
      mem_paths_iff.mpr ((hg.taggedPath_iff hd.numbered hj happroach hhead hx hx' hrun hs).mpr
        ⟨hpass, mem_tags_stepNode.mpr htag⟩), y, ?_, (hd.key_eq_iff hj hs).mpr hys⟩
    rw [Option.mem_def, List.getLast?_append, getLast?_take_succ hy, Option.some_or]

end WorkflowAudit.Graph
