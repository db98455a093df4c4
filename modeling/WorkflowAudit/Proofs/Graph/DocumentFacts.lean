import WorkflowAudit.Graph.Facts
import WorkflowAudit.Proofs.Graph.Construction

/-! What a workflow states: its nodes and edges, told apart by their keys. -/

namespace WorkflowAudit

namespace Text

lemma ofNat_injective : Function.Injective ofNat := by
  intro m n h
  have hd : Nat.toDigits 10 m = Nat.toDigits 10 n := String.ofList_injective h
  rw [← Nat.ofDigitChars_toDigits (b := 10) (n := m) (by decide) (by decide), hd,
    Nat.ofDigitChars_toDigits (by decide) (by decide)]

lemma colon_not_mem_ofNat (n : Nat) : ':' ∉ (ofNat n).toList := by
  intro h
  rw [ofNat, String.toList_ofList] at h
  exact absurd (Nat.isDigit_of_mem_toDigits (by decide) (by decide) h) (by decide)

lemma eq_of_append_cons_eq {c : Char} {xs ys ds es : List Char} (hd : c ∉ ds) (he : c ∉ es)
    (h : xs ++ c :: ds = ys ++ c :: es) : xs = ys ∧ ds = es := by
  rcases List.append_eq_append_iff.mp h with ⟨zs, hy, hz⟩ | ⟨zs, hx, hz⟩
  · cases zs with
    | nil => exact ⟨by simpa using hy.symm, by simpa using hz⟩
    | cons z zs =>
      obtain ⟨-, rfl⟩ := List.cons.inj hz
      exact absurd (by simp) hd
  · cases zs with
    | nil => exact ⟨by simpa using hx, by simpa using hz.symm⟩
    | cons z zs =>
      obtain ⟨-, rfl⟩ := List.cons.inj hz
      exact absurd (by simp) he

end Text

namespace Graph

lemma jobName_inj {parent a b : String} : jobName parent a = jobName parent b ↔ a = b := by
  constructor
  · intro h
    have hl := congrArg String.toList h
    simp only [jobName, String.toList_append] at hl
    exact String.toList_inj.mp (List.append_cancel_left hl)
  · rintro rfl
    rfl

lemma stepName_inj {p q : String} {i j : Nat} : stepName p i = stepName q j ↔ p = q ∧ i = j := by
  constructor
  · intro h
    have hl := congrArg String.toList h
    simp only [stepName, String.toList_append] at hl
    obtain ⟨hp, hi⟩ := Text.eq_of_append_cons_eq (c := ':') (Text.colon_not_mem_ofNat i)
      (Text.colon_not_mem_ofNat j) (by simpa using hl)
    exact ⟨String.toList_inj.mp hp, Text.ofNat_injective (String.toList_inj.mp hi)⟩
  · rintro ⟨rfl, rfl⟩
    rfl

def workflowNode (d : Document) : Node := .workflow (.ofDocument d)

def jobNode (d : Document) (j : Document.Job) : Node := .job (.ofDocument (.ofDocument d) j)

/-- The job of a document, as what its steps belong to. -/
def Parent.ofJob (d : Document) (j : Document.Job) : Parent :=
  ⟨(jobNode d j).key, (jobNode d j).name, j.name, d.repo, d.ref⟩

def stepNode (t : Classification.Tables) (parent : Parent) (s : Document.Step) : Node :=
  .step (.ofDocument t parent.name parent.repo parent.job s)

/-- The needs of a job that are jobs of the document. -/
def knownNeeds (d : Document) (j : Document.Job) : List String :=
  j.needs.filter fun need => d.jobs.any (·.name = need)

/-- The first job of its name in the document. -/
def IsFirstNamed (d : Document) (j : Document.Job) : Prop :=
  ∃ before after, d.jobs = before ++ j :: after ∧ ∀ j' ∈ before, j'.name ≠ j.name

variable {t : Classification.Tables} {d : Document} {j j' : Document.Job} {parent : Parent}
  {previous : Option Key} {steps : List Document.Step} {s s' : Document.Step} {n : Node}
  {a b : Key} {r : Relation}

lemma key_jobNode (d : Document) (j : Document.Job) :
    (jobNode d j).key = ⟨.job, jobName (workflowNode d).name j.name⟩ := rfl

lemma key_stepNode (t : Classification.Tables) (parent : Parent) (s : Document.Step) :
    (stepNode t parent s).key = ⟨.step, stepName parent.name s.index⟩ := rfl

lemma key_jobNode_inj : (jobNode d j).key = (jobNode d j').key ↔ j.name = j'.name := by
  rw [key_jobNode, key_jobNode, Key.mk.injEq, jobName_inj, and_iff_right rfl]

lemma key_stepNode_inj :
    (stepNode t (.ofJob d j) s).key = (stepNode t (.ofJob d j') s').key ↔
      j.name = j'.name ∧ s.index = s'.index := by
  rw [key_stepNode, key_stepNode, Key.mk.injEq, stepName_inj, and_iff_right rfl]
  exact and_congr_left fun _ => jobName_inj

lemma mem_of_isFirstNamed (h : IsFirstNamed d j) : j ∈ d.jobs := by
  obtain ⟨before, after, hd, -⟩ := h
  simp [hd]

lemma isValid_of_mem_jobs (h : j ∈ d.jobs) : d.isValid = true := by
  rw [Document.jobs] at h
  cases hc : d.content with
  | none => simp [hc] at h
  | some c => simp [Document.isValid, hc]

lemma mem_usedFacts {user : Key} {used : Option Node} {fact : Fact} :
    fact ∈ usedFacts user used ↔
      ∃ m ∈ used, fact = .node m ∨ fact = .edge user m.key .uses := by
  cases used <;> simp [usedFacts]

lemma stepFacts_append (xs ys : List Document.Step) :
    stepFacts t parent previous (xs ++ ys) = stepFacts t parent previous xs ++
      stepFacts t parent ((xs.getLast?.map fun s => (stepNode t parent s).key).or previous) ys := by
  induction xs generalizing previous with
  | nil => rfl
  | cons x xs ih =>
    have hlast : ((x :: xs).getLast?.map fun s => (stepNode t parent s).key).or previous =
        (xs.getLast?.map fun s => (stepNode t parent s).key).or
          (some (stepNode t parent x).key) := by
      rw [List.getLast?_cons]
      cases xs.getLast? <;> rfl
    rw [hlast, List.cons_append, stepFacts, stepFacts, ih]
    simp only [List.append_assoc]
    rfl

lemma node_mem_stepFacts (h : .node n ∈ stepFacts t parent previous steps) :
    (∃ s ∈ steps, n = stepNode t parent s) ∨ ∃ s ∈ steps, ∃ uses ∈ s.uses, ∃ action : Action,
      usedAction t parent.repo parent.ref uses = some action ∧ n = .action action := by
  induction steps generalizing previous with
  | nil => exact absurd h List.not_mem_nil
  | cons x xs ih =>
    simp only [stepFacts, List.mem_append, List.mem_cons, Fact.node.injEq, reduceCtorEq,
      List.not_mem_nil, or_false, mem_usedFacts] at h
    rcases h with ((rfl | hf) | ⟨m, hm, rfl⟩) | h
    · exact Or.inl ⟨x, by simp, rfl⟩
    · cases previous <;> simp [followFacts] at hf
    · obtain ⟨action, haction, rfl⟩ := Option.map_eq_some_iff.mp hm
      obtain ⟨uses, huses, haction⟩ := Option.bind_eq_some_iff.mp haction
      exact Or.inr ⟨x, by simp, uses, huses, action, haction, rfl⟩
    · rcases ih h with ⟨s, hs, hn⟩ | ⟨s, hs, hused⟩
      · exact Or.inl ⟨s, List.mem_cons_of_mem _ hs, hn⟩
      · exact Or.inr ⟨s, List.mem_cons_of_mem _ hs, hused⟩

/-- The edges that the steps of a parent state, by the kind of what they lead to. -/
lemma edge_mem_stepFacts (h : .edge a b r ∈ stepFacts t parent previous steps) :
    (∃ s ∈ steps, a = parent.key ∧ b = (stepNode t parent s).key ∧ r = .contains) ∨
      ((∃ s ∈ steps.head?, previous = some a ∧ b = (stepNode t parent s).key) ∨
        ∃ i s s', steps[i]? = some s ∧ steps[i + 1]? = some s' ∧ a = (stepNode t parent s).key ∧
          b = (stepNode t parent s').key) ∨
      b.kind = .action := by
  induction steps generalizing previous with
  | nil => exact absurd h List.not_mem_nil
  | cons x xs ih =>
    simp only [stepFacts, List.mem_append, List.mem_cons, Fact.edge.injEq, reduceCtorEq,
      List.not_mem_nil, or_false, false_or, mem_usedFacts] at h
    rcases h with ((⟨rfl, rfl, rfl⟩ | hf) | ⟨m, hm, -, rfl, -⟩) | h
    · exact Or.inl ⟨x, by simp, rfl, rfl, rfl⟩
    · cases previous with
      | none => simp [followFacts] at hf
      | some q =>
        obtain ⟨rfl, rfl, -⟩ : a = q ∧ b = _ ∧ r = _ := by simpa [followFacts] using hf
        exact Or.inr (Or.inl (Or.inl ⟨x, rfl, rfl, rfl⟩))
    · obtain ⟨action, -, rfl⟩ := Option.map_eq_some_iff.mp hm
      exact Or.inr (Or.inr rfl)
    · rcases ih h with ⟨s, hs, hrest⟩ | (⟨s, hs, hq, hb⟩ | ⟨i, s, s', hi, hi', hrest⟩) | hb
      · exact Or.inl ⟨s, List.mem_cons_of_mem _ hs, hrest⟩
      · refine Or.inr (Or.inl (Or.inr ⟨0, x, s, rfl, ?_, (Option.some.inj hq).symm, hb⟩))
        simpa [List.head?_eq_getElem?] using hs
      · exact Or.inr (Or.inl (Or.inr ⟨i + 1, s, s', hi, hi', hrest⟩))
      · exact Or.inr (Or.inr hb)

lemma contains_mem_stepFacts (h : s ∈ steps) :
    .edge parent.key (stepNode t parent s).key .contains ∈ stepFacts t parent previous steps := by
  obtain ⟨xs, ys, rfl⟩ := List.append_of_mem h
  rw [stepFacts_append, stepFacts]
  simp [stepNode]

lemma next_mem_stepFacts {i : Nat} (h : steps[i]? = some s) (h' : steps[i + 1]? = some s') :
    .edge (stepNode t parent s).key (stepNode t parent s').key .next ∈
      stepFacts t parent previous steps := by
  have hsplit : steps = steps.take i ++ s :: s' :: steps.drop (i + 2) := by
    obtain ⟨hi, rfl⟩ := List.getElem?_eq_some_iff.mp h
    obtain ⟨hi', rfl⟩ := List.getElem?_eq_some_iff.mp h'
    rw [List.getElem_cons_drop, List.getElem_cons_drop, List.take_append_drop]
  rw [hsplit, stepFacts_append, stepFacts, stepFacts]
  simp [stepNode, followFacts]

lemma isGrounded_usedFacts {known : List Key} {user : Key} (h : user ∈ known)
    (used : Option Node) : IsGrounded known (usedFacts user used) := by
  cases used with
  | none => trivial
  | some m => exact ⟨List.mem_cons_of_mem _ h, by simp, trivial⟩

lemma isGrounded_stepFacts {known : List Key} (hp : parent.key ∈ known)
    (hprev : ∀ q ∈ previous, q ∈ known) : IsGrounded known (stepFacts t parent previous steps) := by
  induction steps generalizing previous known with
  | nil => trivial
  | cons x xs ih =>
    set step := stepNode t parent x with hx
    have hstep : step.key ∈ step.key :: known := by simp
    have hfollow : IsGrounded (step.key :: known) (followFacts step.key previous) := by
      cases previous with
      | none => trivial
      | some q => exact ⟨List.mem_cons_of_mem _ (hprev q rfl), hstep, trivial⟩
    have hrest : IsGrounded (step.key :: known) (stepFacts t parent (some step.key) xs) :=
      ih (List.mem_cons_of_mem _ hp) (by simp)
    rw [stepFacts, ← stepNode, ← hx, List.append_assoc, List.append_assoc]
    refine ⟨List.mem_cons_of_mem _ hp, hstep, hfollow.append ?_⟩
    refine ((isGrounded_usedFacts hstep _).append ?_).mono (List.subset_append_right _ _)
    exact hrest.mono (List.subset_append_right _ _)

/-- What a job states without its steps. -/
def ownFacts (d : Document) (j : Document.Job) : List Fact :=
  (knownNeeds d j).map (fun need =>
      .edge ⟨.job, jobName (workflowNode d).name need⟩ (jobNode d j).key .needs) ++
    (if (knownNeeds d j).isEmpty then [.edge (workflowNode d).key (jobNode d j).key .contains]
      else []) ++
    usedFacts (jobNode d j).key ((j.uses.bind (calledWorkflow d)).map .workflow)

lemma jobFacts_eq :
    jobFacts t d j = ownFacts d j ++ stepFacts t (.ofJob d j) none j.steps := rfl

/-- What a workflow states before its jobs state theirs, with some of the jobs. -/
def heading (d : Document) (js : List Document.Job) : List Fact :=
  [.node (.repo d.repo), .node (workflowNode d),
    .edge (Node.repo d.repo).key (workflowNode d).key .contains] ++
      js.map fun j => .node (jobNode d j)

lemma workflowFacts_eq (h : d.isValid = true) :
    workflowFacts t d = heading d d.jobs ++ d.jobs.flatMap (jobFacts t d) := by
  rw [workflowFacts, if_pos h]
  rfl

lemma workflowNode_mem_workflowFacts (h : d.isValid = true) :
    .node (workflowNode d) ∈ workflowFacts t d := by
  simp [workflowFacts_eq h, heading]

lemma isValid_of_mem_workflowFacts {fact : Fact} (h : fact ∈ workflowFacts t d) :
    d.isValid = true := by
  cases hv : d.isValid with
  | true => rfl
  | false => simp [workflowFacts, hv] at h

lemma mem_workflowFacts_of_job {fact : Fact} (hj : j ∈ d.jobs) (h : fact ∈ jobFacts t d j) :
    fact ∈ workflowFacts t d := by
  rw [workflowFacts_eq (isValid_of_mem_jobs hj)]
  exact List.mem_append_right _ (List.mem_flatMap.mpr ⟨j, hj, h⟩)

lemma contains_mem_jobFacts (h : knownNeeds d j = []) :
    .edge (workflowNode d).key (jobNode d j).key .contains ∈ jobFacts t d j := by
  simp [jobFacts_eq, ownFacts, h]

lemma needs_mem_jobFacts {need : String} (h : need ∈ knownNeeds d j) :
    .edge ⟨.job, jobName (workflowNode d).name need⟩ (jobNode d j).key .needs ∈
      jobFacts t d j := by
  rw [jobFacts_eq, ownFacts]
  refine List.mem_append_left _ (List.mem_append_left _ (List.mem_append_left _ ?_))
  exact List.mem_map.mpr ⟨_, h, rfl⟩

lemma isInitialized_calledWorkflow {uses : String} {w : Workflow}
    (h : calledWorkflow d uses = some w) : w.initialized = false := by
  rw [calledWorkflow] at h
  split at h
  · obtain rfl := Option.some.inj h
    rfl
  · obtain ⟨path, -, rfl⟩ := Option.map_eq_some_iff.mp h
    rfl
  · exact absurd h (by simp)

lemma node_mem_ownFacts (h : .node n ∈ ownFacts d j) :
    ∃ uses ∈ j.uses, ∃ w : Workflow, calledWorkflow d uses = some w ∧ n = .workflow w := by
  simp only [ownFacts, List.mem_append, List.mem_map, reduceCtorEq, and_false, exists_false,
    false_or, mem_usedFacts] at h
  rcases h with h | ⟨m, hm, h⟩
  · split at h <;> simp at h
  · obtain ⟨w, hw, rfl⟩ := Option.map_eq_some_iff.mp hm
    obtain ⟨uses, huses, hw⟩ := Option.bind_eq_some_iff.mp hw
    exact ⟨uses, huses, w, hw, by simpa using h⟩

/-- The edges that a job states, by what they lead to. -/
lemma edge_mem_jobFacts (h : .edge a b r ∈ jobFacts t d j) :
    b = (jobNode d j).key ∧
        ((∃ need ∈ knownNeeds d j, a = ⟨.job, jobName (workflowNode d).name need⟩) ∨
          knownNeeds d j = [] ∧ a = (workflowNode d).key) ∨
      b.kind = .workflow ∨ .edge a b r ∈ stepFacts t (.ofJob d j) none j.steps := by
  simp only [jobFacts_eq, ownFacts, List.mem_append, List.mem_map, Fact.edge.injEq, mem_usedFacts,
    reduceCtorEq, false_or] at h
  rcases h with ((⟨need, hneed, rfl, rfl, -⟩ | h) | ⟨m, hm, -, rfl, -⟩) | h
  · exact Or.inl ⟨rfl, Or.inl ⟨need, hneed, rfl⟩⟩
  · split at h
    · next he =>
      obtain ⟨rfl, rfl, -⟩ : a = _ ∧ b = _ ∧ r = _ := by simpa using h
      exact Or.inl ⟨rfl, Or.inr ⟨List.isEmpty_iff.mp he, rfl⟩⟩
    · exact absurd h List.not_mem_nil
  · obtain ⟨w, -, rfl⟩ := Option.map_eq_some_iff.mp hm
    exact Or.inr (Or.inl rfl)
  · exact Or.inr (Or.inr h)

lemma exists_of_mem_knownNeeds {need : String} (h : need ∈ knownNeeds d j) :
    ∃ j' ∈ d.jobs, j'.name = need := by
  simpa using (List.mem_filter.mp h).2

lemma isGrounded_jobFacts {known : List Key} (hw : (workflowNode d).key ∈ known)
    (hjobs : ∀ j' ∈ d.jobs, (jobNode d j').key ∈ known) (hj : j ∈ d.jobs) :
    IsGrounded known (jobFacts t d j) := by
  have hjob := hjobs j hj
  have hneeds : IsGrounded known ((knownNeeds d j).map fun need =>
      .edge ⟨.job, jobName (workflowNode d).name need⟩ (jobNode d j).key .needs) := by
    refine isGrounded_edges fun fact hf => ?_
    obtain ⟨need, hneed, rfl⟩ := List.mem_map.mp hf
    obtain ⟨j', hj', rfl⟩ := exists_of_mem_knownNeeds hneed
    exact ⟨_, _, _, rfl, hjobs j' hj', hjob⟩
  have hcontains : IsGrounded known (if (knownNeeds d j).isEmpty then
      [.edge (workflowNode d).key (jobNode d j).key .contains] else []) := by
    split
    · exact ⟨hw, hjob, trivial⟩
    · trivial
  rw [jobFacts_eq, ownFacts]
  refine ((hneeds.append ?_).append ?_).append ?_
  · exact hcontains.mono (List.subset_append_right _ _)
  · exact (isGrounded_usedFacts hjob _).mono (List.subset_append_right _ _)
  · exact (isGrounded_stepFacts hjob (by simp)).mono (List.subset_append_right _ _)

lemma isGrounded_heading (d : Document) (js : List Document.Job) :
    IsGrounded [] (heading d js) := by
  have hfirst : IsGrounded [] [.node (.repo d.repo), .node (workflowNode d),
      .edge (Node.repo d.repo).key (workflowNode d).key .contains] :=
    ⟨by simp, by simp, trivial⟩
  have hjobs : IsGrounded [] (js.map fun j => .node (jobNode d j)) := by
    have hnodes : IsGrounded [] ((js.map (jobNode d)).map .node) := isGrounded_nodes _
    rw [List.map_map] at hnodes
    exact hnodes
  exact hfirst.append (hjobs.mono (List.nil_subset _))

lemma isGrounded_workflowFacts (h : d.isValid = true) : IsGrounded [] (workflowFacts t d) := by
  rw [workflowFacts_eq h]
  refine (isGrounded_heading d d.jobs).append (.flatMap fun j hj => ?_)
  refine isGrounded_jobFacts ?_ (fun j' hj' => ?_) hj
  · exact List.mem_append_left _ (mem_statedKeys (by simp [heading]))
  · exact List.mem_append_left _ (mem_statedKeys
      (List.mem_append_right _ (List.mem_map.mpr ⟨j', hj', rfl⟩)))

/-- The graph of a workflow on its own. -/
def ofWorkflow (t : Classification.Tables) (d : Document) : Graph := empty.addWorkflow t d

lemma isKeyed_ofWorkflow (t : Classification.Tables) (d : Document) : (ofWorkflow t d).IsKeyed :=
  (grows_addWorkflow t d empty).keyed isKeyed_empty

lemma links_ofWorkflow (h : .edge a b r ∈ workflowFacts t d) : (ofWorkflow t d).Links a b r :=
  links_addAll isKeyed_empty (isGrounded_workflowFacts (isValid_of_mem_workflowFacts h)) (by simp) h

lemma links_ofWorkflow_of_job (hj : j ∈ d.jobs) (h : .edge a b r ∈ jobFacts t d j) :
    (ofWorkflow t d).Links a b r :=
  links_ofWorkflow (mem_workflowFacts_of_job hj h)

lemma mem_ofWorkflow_of_first (before : List Fact) {after : List Fact} (hn : n.isInitialized = true)
    (hfacts : workflowFacts t d = before ++ .node n :: after)
    (h : ∀ m, .node m ∈ before → m.key = n.key → m.isInitialized = false) :
    n ∈ (ofWorkflow t d).nodes := by
  rw [ofWorkflow, addWorkflow, hfacts]
  exact mem_addAll_of_first hn (by simp [empty]) h

lemma workflowNode_mem (h : d.isValid = true) : workflowNode d ∈ (ofWorkflow t d).nodes := by
  refine mem_ofWorkflow_of_first [.node (.repo d.repo)] rfl (workflowFacts_eq h) ?_
  intro m hm hk
  obtain rfl : m = .repo d.repo := by simpa using hm
  exact absurd (congrArg Key.kind hk) (by simp [Node.key, Node.kind, workflowNode])

lemma node_mem_heading {js : List Document.Job} (h : .node n ∈ heading d js) :
    n = .repo d.repo ∨ n = workflowNode d ∨ ∃ j ∈ js, n = jobNode d j := by
  simpa [heading, or_assoc, eq_comm] using h

lemma jobNode_mem (h : IsFirstNamed d j) : jobNode d j ∈ (ofWorkflow t d).nodes := by
  have hv := isValid_of_mem_jobs (mem_of_isFirstNamed h)
  obtain ⟨before, after, hd, hne⟩ := h
  have hfacts := workflowFacts_eq (t := t) hv
  rw [heading, hd, List.map_append, List.map_cons] at hfacts
  refine mem_ofWorkflow_of_first (heading d before) rfl
    (by simpa [heading] using hfacts) ?_
  intro m hm hk
  rcases node_mem_heading hm with rfl | rfl | ⟨j', hj', rfl⟩
  · exact absurd (congrArg Key.kind hk) (by simp [Node.key, Node.kind, jobNode])
  · exact absurd (congrArg Key.kind hk) (by simp [Node.key, Node.kind, jobNode, workflowNode])
  · exact absurd (key_jobNode_inj.mp hk) (hne j' hj')

lemma stepNode_mem (h : IsFirstNamed d j) {i : Nat} (hs : j.steps[i]? = some s)
    (hindex : ∀ s' ∈ j.steps.take i, s'.index ≠ s.index) :
    stepNode t (.ofJob d j) s ∈ (ofWorkflow t d).nodes := by
  have hv := isValid_of_mem_jobs (mem_of_isFirstNamed h)
  obtain ⟨before, after, hd, hne⟩ := h
  obtain ⟨hi, rfl⟩ := List.getElem?_eq_some_iff.mp hs
  have hsteps : j.steps = j.steps.take i ++ j.steps[i] :: j.steps.drop (i + 1) := by
    rw [List.getElem_cons_drop, List.take_append_drop]
  have hfacts := workflowFacts_eq (t := t) hv
  have hj : jobFacts t d j = ownFacts d j ++
      stepFacts t (.ofJob d j) none (j.steps.take i ++ j.steps[i] :: j.steps.drop (i + 1)) := by
    rw [← hsteps, jobFacts_eq]
  have hflat : d.jobs.flatMap (jobFacts t d) =
      before.flatMap (jobFacts t d) ++ (jobFacts t d j ++ after.flatMap (jobFacts t d)) := by
    rw [hd, List.flatMap_append, List.flatMap_cons]
  rw [hflat, hj, stepFacts_append] at hfacts
  refine mem_ofWorkflow_of_first (heading d d.jobs ++ (before.flatMap (jobFacts t d) ++
      (ownFacts d j ++ stepFacts t (.ofJob d j) none (j.steps.take i)))) rfl
    (by rw [hfacts, stepFacts]; simp only [List.append_assoc]; rfl) ?_
  -- What is stated before the step has another kind, belongs to another job, or is an earlier step.
  intro m hm hk
  have hkind : m.kind = .step := congrArg Key.kind hk
  rcases List.mem_append.mp hm with hm | hm
  · rcases node_mem_heading hm with rfl | rfl | ⟨j', -, rfl⟩ <;> cases hkind
  · rcases List.mem_append.mp hm with hm | hm
    · obtain ⟨j', hj', hm⟩ := List.mem_flatMap.mp hm
      rcases List.mem_append.mp hm with hm | hm
      · obtain ⟨-, -, w, -, rfl⟩ := node_mem_ownFacts hm
        cases hkind
      · rcases node_mem_stepFacts hm with ⟨s', hs', rfl⟩ | ⟨-, -, -, -, action, -, rfl⟩
        · exact absurd (key_stepNode_inj.mp hk).1 (hne j' hj')
        · cases hkind
    · rcases List.mem_append.mp hm with hm | hm
      · obtain ⟨-, -, w, -, rfl⟩ := node_mem_ownFacts hm
        cases hkind
      · rcases node_mem_stepFacts hm with ⟨s', hs', rfl⟩ | ⟨-, -, -, -, action, -, rfl⟩
        · exact absurd (key_stepNode_inj.mp hk).2 (hindex s' hs')
        · cases hkind

lemma edge_mem_workflowFacts (h : .edge a b r ∈ workflowFacts t d) :
    b.kind = .workflow ∨ ∃ j ∈ d.jobs, .edge a b r ∈ jobFacts t d j := by
  rw [workflowFacts] at h
  split at h
  · rcases List.mem_append.mp h with h | h
    · obtain ⟨rfl, rfl, -⟩ : a = _ ∧ b = _ ∧ r = _ := by simpa using h
      exact Or.inl rfl
    · exact Or.inr (List.mem_flatMap.mp h)
  · exact absurd h List.not_mem_nil

/-- The nodes that a document states. -/
inductive States (t : Classification.Tables) (d : Document) : Node → Prop
  | repo : States t d (.repo d.repo)
  | workflow : States t d (workflowNode d)
  | job {j : Document.Job} (hj : j ∈ d.jobs) : States t d (jobNode d j)
  | step {j : Document.Job} {s : Document.Step} (hj : j ∈ d.jobs) (hs : s ∈ j.steps) :
    States t d (stepNode t (.ofJob d j) s)
  | called {j : Document.Job} {uses : String} {w : Workflow} (hj : j ∈ d.jobs)
    (hu : uses ∈ j.uses) (hw : calledWorkflow d uses = some w) : States t d (.workflow w)
  | used {j : Document.Job} {s : Document.Step} {uses : String} {a : Action} (hj : j ∈ d.jobs)
    (hs : s ∈ j.steps) (hu : uses ∈ s.uses) (ha : usedAction t d.repo d.ref uses = some a) :
    States t d (.action a)

lemma states_of_mem (h : .node n ∈ workflowFacts t d) : States t d n := by
  by_cases hv : d.isValid = true
  · rw [workflowFacts_eq hv] at h
    rcases List.mem_append.mp h with h | h
    · rcases node_mem_heading h with rfl | rfl | ⟨j, hj, rfl⟩
      · exact .repo
      · exact .workflow
      · exact .job hj
    · obtain ⟨j, hj, h⟩ := List.mem_flatMap.mp h
      rcases List.mem_append.mp h with h | h
      · obtain ⟨uses, hu, w, hw, rfl⟩ := node_mem_ownFacts h
        exact .called hj hu hw
      · rcases node_mem_stepFacts h with ⟨s, hs, rfl⟩ | ⟨s, hs, uses, hu, a, ha, rfl⟩
        · exact .step hj hs
        · exact .used hj hs hu ha
  · simp [workflowFacts, hv] at h

end Graph

end WorkflowAudit
