import WorkflowAudit.Proofs.Graph.Rebuilding

/-! The environment of a job or step takes no part in how a graph comes about. A document with
another environment in one of its jobs or steps gives the same graph but for that environment,
whatever came before the document and whatever comes after it. -/

namespace WorkflowAudit

namespace Graph

/-- The node with another environment if it is the job or step of a key. -/
def Node.withEnv (key : Key) (env : Assoc String) : Node → Node
  | .job j => .job (if (Node.job j).key = key then { j with env := env } else j)
  | .step s => .step (if (Node.step s).key = key then { s with env := env } else s)
  | n => n

def Fact.withEnv (key : Key) (env : Assoc String) : Fact → Fact
  | .node n => .node (n.withEnv key env)
  | .edge source target relation => .edge source target relation

/-- The graph with another environment in the job or step of a key. -/
def withEnv (key : Key) (env : Assoc String) (g : Graph) : Graph :=
  { g with nodes := g.nodes.map (Node.withEnv key env) }

/-- Only jobs and steps have environments of their own that are scoped to them. -/
def Key.IsScoped (key : Key) : Prop := key.kind = .job ∨ key.kind = .step

variable {g : Graph} {key : Key} {env : Assoc String} {n m : Node} {i : Nat}

namespace Node

lemma withEnv_of_ne (h : n.key ≠ key) : n.withEnv key env = n := by
  cases n with
  | job j => exact congrArg Node.job (if_neg h)
  | step s => exact congrArg Node.step (if_neg h)
  | repo _ | workflow _ | action _ => rfl

/-- Whatever no environment has a part in stays. -/
lemma apply_withEnv {α : Type} (f : Node → α)
    (hjob : ∀ (j : Job) (env : Assoc String), f (.job { j with env := env }) = f (.job j))
    (hstep : ∀ (s : Step) (env : Assoc String), f (.step { s with env := env }) = f (.step s))
    (key : Key) (env : Assoc String) (n : Node) : f (n.withEnv key env) = f n := by
  cases n with
  | job j =>
    rw [withEnv]
    split
    · exact hjob j env
    · rfl
  | step s =>
    rw [withEnv]
    split
    · exact hstep s env
    · rfl
  | repo _ | workflow _ | action _ => rfl

@[simp]
lemma key_withEnv : (n.withEnv key env).key = n.key :=
  apply_withEnv Node.key (fun _ _ => rfl) (fun _ _ => rfl) _ _ _

@[simp]
lemma isInitialized_withEnv : (n.withEnv key env).isInitialized = n.isInitialized :=
  apply_withEnv Node.isInitialized (fun _ _ => rfl) (fun _ _ => rfl) _ _ _

@[simp]
lemma tags_withEnv : (n.withEnv key env).tags = n.tags :=
  apply_withEnv Node.tags (fun _ _ => rfl) (fun _ _ => rfl) _ _ _

@[simp]
lemma isRestricted_withEnv : (n.withEnv key env).isRestricted = n.isRestricted :=
  apply_withEnv Node.isRestricted (fun _ _ => rfl) (fun _ _ => rfl) _ _ _

@[simp]
lemma traits?_withEnv : (n.withEnv key env).traits? = n.traits? :=
  apply_withEnv Node.traits? (fun _ _ => rfl) (fun _ _ => rfl) _ _ _

@[simp]
lemma kind_withEnv : (n.withEnv key env).kind = n.kind :=
  apply_withEnv Node.kind (fun _ _ => rfl) (fun _ _ => rfl) _ _ _

lemma asInitialized_withEnv (key : Key) (env : Assoc String) (n : Node) :
    (n.withEnv key env).asInitialized = n.asInitialized.withEnv key env := by
  cases n <;> rfl

end Node

lemma settle_withEnv (old new : Node) :
    settle (old.withEnv key env) (new.withEnv key env) = (settle old new).withEnv key env := by
  rw [settle, settle, Node.isInitialized_withEnv, Node.isInitialized_withEnv]
  split <;> rfl

lemma length_withEnv (g : Graph) (key : Key) (env : Assoc String) :
    (g.withEnv key env).nodes.length = g.nodes.length :=
  List.length_map _

lemma edges_withEnv (g : Graph) (key : Key) (env : Assoc String) :
    (g.withEnv key env).edges = g.edges := rfl

@[simp]
lemma number?_withEnv (g : Graph) (key k : Key) (env : Assoc String) :
    (g.withEnv key env).number? k = g.number? k := by
  simp [number?, withEnv, List.findIdx?_map, Function.comp_def]

lemma map_modify {l : List Node} {f p q : Node → Node} (hcomm : ∀ n, f (p n) = q (f n)) (i : Nat) :
    (l.modify i p).map f = (l.map f).modify i q := by
  refine List.ext_getElem? fun j => ?_
  rw [List.getElem?_map, List.getElem?_modify, List.getElem?_modify, List.getElem?_map]
  cases l[j]? with
  | none => rfl
  | some n => by_cases hij : i = j <;> simp [hij, hcomm]

lemma insert_withEnv (g : Graph) (n : Node) :
    (g.withEnv key env).insert (n.withEnv key env) = (g.insert n).withEnv key env := by
  rw [insert, insert, number?_withEnv, Node.key_withEnv]
  split
  · next i _ =>
    have hnodes := map_modify (l := g.nodes) (f := Node.withEnv key env) (p := (settle · n))
      (q := (settle · (n.withEnv key env))) (fun m => (settle_withEnv m n).symm) i
    exact congrArg (Graph.mk · g.edges) hnodes.symm
  · simp [withEnv]

lemma markInitialized_withEnv (g : Graph) (i : Nat) :
    (g.withEnv key env).markInitialized i = (g.markInitialized i).withEnv key env := by
  have hnodes := map_modify (l := g.nodes)
    (fun n => (Node.asInitialized_withEnv key env n).symm) i
  exact congrArg (Graph.mk · g.edges) hnodes.symm

lemma connect_withEnv (g : Graph) (a b : Nat) (r : Relation) :
    (g.withEnv key env).connect a b r = (g.connect a b r).withEnv key env := by
  rw [connect, connect, edges_withEnv]
  split <;> rfl

lemma add_withEnv (g : Graph) (fact : Fact) :
    (g.withEnv key env).add (fact.withEnv key env) = (g.add fact).withEnv key env := by
  cases fact with
  | node n => exact insert_withEnv g n
  | edge a b r =>
    simp only [Fact.withEnv, add, number?_withEnv]
    split
    · exact connect_withEnv g _ _ r
    · rfl

/-- Facts with another environment give the graph with that environment. -/
lemma addAll_withEnv (g : Graph) (facts : List Fact) :
    (g.withEnv key env).addAll (facts.map (Fact.withEnv key env)) =
      (g.addAll facts).withEnv key env := by
  induction facts generalizing g with
  | nil => rfl
  | cons fact facts ih => exact (congrArg (addAll · _) (add_withEnv g fact)).trans (ih _)

/-- A job or step that stands in a graph keeps the environment that it came with. -/
lemma add_withEnv_of_mem (hscoped : key.IsScoped) (h : (g.number? key).isSome = true)
    (fact : Fact) : g.add (fact.withEnv key env) = g.add fact := by
  cases fact with
  | edge a b r => rfl
  | node n =>
    by_cases hn : n.key = key
    · obtain ⟨i, hi⟩ := Option.isSome_iff_exists.mp h
      obtain ⟨old, hold, hkey⟩ := exists_of_number? hi
      have hkind : old.kind = .job ∨ old.kind = .step := by
        rw [← hkey] at hscoped
        exact hscoped
      have hread : old.isInitialized = true := by
        cases old with
        | job _ | step _ => rfl
        | repo _ | workflow _ | action _ => simp [Node.kind] at hkind
      simp only [Fact.withEnv, add, insert, Node.key_withEnv, hn, hi]
      congr 1
      refine List.ext_getElem? fun j => ?_
      rw [List.getElem?_modify, List.getElem?_modify]
      by_cases hij : i = j
      · subst hij
        simp [hold, settle, hread]
      · simp [hij]
    · rw [Fact.withEnv, Node.withEnv_of_ne hn]

lemma addAll_withEnv_of_mem (hk : g.IsKeyed) (hscoped : key.IsScoped)
    (h : (g.number? key).isSome = true) (facts : List Fact) :
    g.addAll (facts.map (Fact.withEnv key env)) = g.addAll facts := by
  induction facts generalizing g with
  | nil => rfl
  | cons fact facts ih =>
    have hgrows := grows_add g fact
    have hkeyed := hgrows.keyed hk
    exact (congrArg (addAll · _) (add_withEnv_of_mem hscoped h fact)).trans
      (ih hkeyed (hgrows.isSome_number? hkeyed h))

lemma isKeyed_withEnv : (g.withEnv key env).IsKeyed ↔ g.IsKeyed := by
  simp [IsKeyed, withEnv, Function.comp_def]

/-- Facts that come in behind a job or step leave its environment alone. -/
lemma withEnv_addAll (hk : g.IsKeyed) (hscoped : key.IsScoped)
    (h : (g.number? key).isSome = true) (facts : List Fact) :
    (g.withEnv key env).addAll facts = (g.addAll facts).withEnv key env := by
  rw [← addAll_withEnv, addAll_withEnv_of_mem (isKeyed_withEnv.mpr hk) hscoped]
  rwa [number?_withEnv]

lemma getElem?_withEnv (g : Graph) (key : Key) (env : Assoc String) (i : Nat) :
    (g.withEnv key env).nodes[i]? = (g.nodes[i]?).map (Node.withEnv key env) :=
  List.getElem?_map

lemma hasTag_withEnv (g : Graph) : (g.withEnv key env).hasTag = g.hasTag := by
  funext i tag
  rw [hasTag, hasTag, getElem?_withEnv]
  cases g.nodes[i]? with
  | none => rfl
  | some n => simp

lemma tagged_withEnv (g : Graph) (tags : List String) :
    (g.withEnv key env).tagged tags = g.tagged tags := by
  simp only [tagged, hasTag_withEnv, length_withEnv]

lemma isEntry_withEnv (g : Graph) (e : Edge) : (g.withEnv key env).isEntry e = g.isEntry e := by
  rw [isEntry, isEntry, getElem?_withEnv]
  cases e.relation with
  | needs | uses | next => rfl
  | contains =>
    cases g.nodes[e.target]? with
    | none => rfl
    | some n =>
      cases n with
      | step s =>
        rw [Option.map_some, Node.withEnv]
        by_cases h : (Node.step s).key = key <;> simp [h]
      | repo _ | workflow _ | job _ | action _ => rfl

lemma successors_withEnv (g : Graph) (i : Nat) :
    (g.withEnv key env).successors i = g.successors i := by
  simp only [successors, isEntry_withEnv, length_withEnv, edges_withEnv]

lemma stepsOf_withEnv (g : Graph) (i : Nat) : (g.withEnv key env).stepsOf i = g.stepsOf i := by
  have hkind (j : Nat) : (g.withEnv key env).nodes[j]?.any (·.kind = .step) =
      g.nodes[j]?.any (·.kind = .step) := by
    rw [getElem?_withEnv]
    cases g.nodes[j]? <;> simp
  simp only [stepsOf, hkind, length_withEnv, edges_withEnv]

lemma past?_withEnv (p : Progress) (n : Node) : p.past? (n.withEnv key env) = p.past? n := by
  simp only [Progress.past?, Progress.isMutableCheckout, Node.traits?_withEnv]

lemma counts_withEnv (p : Progress) (n : Node) : p.counts (n.withEnv key env) = p.counts n := by
  simp only [Progress.counts, Progress.isMutableCheckout, Node.traits?_withEnv]

lemma pathsFrom_withEnv (g : Graph) (tag : String) (fuel : Nat) (p : Progress) (path : List Nat)
    (i : Nat) :
    (g.withEnv key env).pathsFrom tag fuel p path i = g.pathsFrom tag fuel p path i := by
  induction fuel generalizing p path i with
  | zero => rfl
  | succ fuel ih =>
    rw [pathsFrom, pathsFrom, getElem?_withEnv]
    cases g.nodes[i]? with
    | none => rfl
    | some n =>
      simp only [Option.map_some, Node.isRestricted_withEnv, Node.tags_withEnv, counts_withEnv,
        past?_withEnv, successors_withEnv]
      split
      · rfl
      · split
        · rfl
        · exact congrArg _ (List.flatMap_congr fun j _ => ih _ _ j)

/-- The search sees no environment. -/
lemma paths_withEnv (g : Graph) (start : Nat) (tag : String) :
    (g.withEnv key env).paths start tag = g.paths start tag := by
  rw [paths, paths, pathsFrom_withEnv, hasTag_withEnv, length_withEnv]

lemma closure_withEnv (g : Graph) (fuel : Nat) (seen : List Nat) :
    (g.withEnv key env).closure fuel seen = g.closure fuel seen := by
  induction fuel generalizing seen with
  | zero => rfl
  | succ fuel ih =>
    rw [closure, closure, show (g.withEnv key env).targets seen = g.targets seen from rfl]
    split
    · rfl
    · exact ih _

lemma pending_withEnv (g : Graph) (entries : List Nat) :
    Audit.pending (g.withEnv key env) entries = Audit.pending g entries := by
  simp only [Audit.pending, tagged_withEnv, reachable, closure_withEnv, length_withEnv]

open Source (Knowledge)

variable {k : Knowledge} {t : Classification.Tables}

lemma resolveNode_withEnv (hk : g.IsKeyed) (hscoped : key.IsScoped)
    (h : (g.number? key).isSome = true) (i : Nat) :
    Audit.resolveNode k t (g.withEnv key env) i = (Audit.resolveNode k t g i).withEnv key env := by
  have hfacts (n : Node) : IndexedGraph.referenceFacts k t (n.withEnv key env) =
      IndexedGraph.referenceFacts k t n :=
    Node.apply_withEnv (IndexedGraph.referenceFacts k t) (fun _ _ => rfl) (fun _ _ => rfl) _ _ n
  have hread : ((g.withEnv key env).nodes[i]?.map (IndexedGraph.referenceFacts k t)) =
      g.nodes[i]?.map (IndexedGraph.referenceFacts k t) := by
    rw [getElem?_withEnv, Option.map_map]
    exact congrArg (Option.map · _) (funext hfacts)
  rw [Audit.resolveNode, Audit.resolveNode, IndexedGraph.markInitialized_addReference,
    IndexedGraph.markInitialized_addReference, hread, withEnv_addAll hk hscoped h,
    markInitialized_withEnv]

/-- A run of steps leaves the environment of a job or step alone if each of them does. -/
lemma foldl_withEnv {α : Type} {step : Graph → α → Graph}
    (hgrows : ∀ g a, Grows g (step g a))
    (hstep : ∀ g a, g.IsKeyed → (g.number? key).isSome = true →
      step (g.withEnv key env) a = (step g a).withEnv key env)
    (hk : g.IsKeyed) (h : (g.number? key).isSome = true) (as : List α) :
    as.foldl step (g.withEnv key env) = (as.foldl step g).withEnv key env := by
  induction as generalizing g with
  | nil => rfl
  | cons a as ih =>
    have hkeyed := (hgrows g a).keyed hk
    rw [List.foldl_cons, List.foldl_cons, hstep g a hk h,
      ih hkeyed ((hgrows g a).isSome_number? hkeyed h)]

lemma resolveRounds_withEnv (hk : g.IsKeyed) (hscoped : key.IsScoped)
    (h : (g.number? key).isSome = true) (entries : List Nat) (rounds : Nat) :
    Audit.resolveRounds k t entries rounds (g.withEnv key env) =
      (Audit.resolveRounds k t entries rounds g).withEnv key env := by
  induction rounds generalizing g with
  | zero => rfl
  | succ rounds ih =>
    have hgrows := Audit.grows_foldl_resolveNode k t (Audit.pending g entries) g
    have hkeyed := hgrows.keyed hk
    rw [Audit.resolveRounds, Audit.resolveRounds, Audit.resolveRound, pending_withEnv,
      foldl_withEnv (Audit.grows_resolveNode k t)
        (fun g i hk h => resolveNode_withEnv hk hscoped h i) hk h]
    exact ih hkeyed (hgrows.isSome_number? hkeyed h)

/-- What comes in behind a job or step leaves its environment alone. -/
lemma perform_withEnv (hk : g.IsKeyed) (hscoped : key.IsScoped)
    (h : (g.number? key).isSome = true) (o : Operation) :
    (g.withEnv key env).perform o = (g.perform o).withEnv key env := by
  cases o with
  | insert n => exact withEnv_addAll hk hscoped h [.node n]
  | markInitialized i => exact markInitialized_withEnv g i
  | connect a b r => exact connect_withEnv g a b r
  | addWorkflow t d => exact withEnv_addAll hk hscoped h _
  | addAction t d i =>
    simp only [perform, addAction, getElem?_withEnv]
    rcases g.nodes[i]? with _ | _ | _ | _ | _ | a
    all_goals try rfl
    simp only [Option.map_some, Node.withEnv]
    rw [withEnv_addAll hk hscoped h, markInitialized_withEnv]
  | resolve k t entries => exact resolveRounds_withEnv hk hscoped h entries _

/-- A graph knows nothing of the environment of a node that it does not have. -/
lemma withEnv_eq_self (h : g.number? key = none) : g.withEnv key env = g := by
  have hnodes : g.nodes.map (Node.withEnv key env) = g.nodes.map id :=
    List.map_congr_left fun n hn => Node.withEnv_of_ne (number?_eq_none_iff.mp h n hn)
  rw [List.map_id] at hnodes
  exact congrArg (Graph.mk · g.edges) hnodes

end Graph

namespace Document

def mapJobs (f : Job → Job) (d : Document) : Document :=
  { d with content := d.content.map fun c => { c with jobs := c.jobs.map f } }

/-- The document with another environment in the jobs of a name. -/
def withJobEnv (d : Document) (job : String) (env : Assoc String) : Document :=
  d.mapJobs fun j => if j.name = job then { j with env := env } else j

/-- The document with another environment in a step of the jobs of a name. -/
def withStepEnv (d : Document) (job : String) (i : Nat) (env : Assoc String) : Document :=
  d.mapJobs fun j =>
    if j.name = job then
      { j with steps := j.steps.map fun s => if s.index = i then { s with env := env } else s }
    else j

lemma jobs_mapJobs (f : Job → Job) (d : Document) : (d.mapJobs f).jobs = d.jobs.map f := by
  rw [jobs, jobs, mapJobs]
  cases d.content <;> rfl

lemma isValid_mapJobs (f : Job → Job) (d : Document) : (d.mapJobs f).isValid = d.isValid := by
  rw [isValid, isValid, mapJobs, Option.isSome_map]

end Document

namespace Graph

/-- Jobs are changed in the environment of one node only. -/
structure ChangesEnv (t : Classification.Tables) (d : Document) (key : Key) (env : Assoc String)
    (f : Document.Job → Document.Job) : Prop where
  name : ∀ j, (f j).name = j.name
  needs : ∀ j, (f j).needs = j.needs
  uses : ∀ j, (f j).uses = j.uses
  node : ∀ j, jobNode d (f j) = (jobNode d j).withEnv key env
  steps : ∀ j, List.Forall₂ (fun s' s => s'.uses = s.uses ∧
    stepNode t (.ofJob d j) s' = (stepNode t (.ofJob d j) s).withEnv key env) (f j).steps j.steps

variable {t : Classification.Tables} {d : Document} {j : Document.Job} {key : Key}
  {env : Assoc String} {f : Document.Job → Document.Job}

lemma ofDocument_mapJobs (f : Document.Job → Document.Job) (d : Document) :
    Workflow.ofDocument (d.mapJobs f) = .ofDocument d := by
  rw [Workflow.ofDocument, Workflow.ofDocument, Document.displayName, Document.displayName,
    Document.triggers, Document.triggers, Document.env, Document.env, Document.mapJobs]
  cases d.content <;> rfl

lemma workflowNode_mapJobs (f : Document.Job → Document.Job) (d : Document) :
    workflowNode (d.mapJobs f) = workflowNode d := by
  rw [workflowNode, ofDocument_mapJobs, workflowNode]

lemma jobNode_mapJobs (f : Document.Job → Document.Job) (d : Document) (j : Document.Job) :
    jobNode (d.mapJobs f) j = jobNode d j := by
  rw [jobNode, ofDocument_mapJobs, jobNode]

lemma ofJob_mapJobs (f : Document.Job → Document.Job) (d : Document) (j : Document.Job) :
    Parent.ofJob (d.mapJobs f) j = .ofJob d j := by
  rw [Parent.ofJob, jobNode_mapJobs, Parent.ofJob]
  rfl

lemma calledWorkflow_mapJobs (f : Document.Job → Document.Job) (d : Document) :
    calledWorkflow (d.mapJobs f) = calledWorkflow d := by
  have hrepo : (d.mapJobs f).repo = d.repo := rfl
  have href : (d.mapJobs f).ref = d.ref := rfl
  funext uses
  rw [calledWorkflow, calledWorkflow, hrepo, href]

lemma usedFacts_withEnv {user : Key} {used : Option Node}
    (h : ∀ n ∈ used, n.kind = .workflow ∨ n.kind = .action) :
    (usedFacts user used).map (Fact.withEnv key env) = usedFacts user used := by
  cases used with
  | none => rfl
  | some n =>
    cases n with
    | workflow _ | action _ => rfl
    | repo _ | job _ | step _ => simp [Node.kind] at h

lemma followFacts_withEnv (step : Key) (previous : Option Key) :
    (followFacts step previous).map (Fact.withEnv key env) = followFacts step previous := by
  cases previous <;> rfl

lemma stepFacts_withEnv {parent : Parent} {previous : Option Key}
    {steps steps' : List Document.Step}
    (h : List.Forall₂ (fun s' s => s'.uses = s.uses ∧
      stepNode t parent s' = (stepNode t parent s).withEnv key env) steps' steps) :
    stepFacts t parent previous steps' =
      (stepFacts t parent previous steps).map (Fact.withEnv key env) := by
  induction h generalizing previous with
  | nil => rfl
  | @cons s' s steps' steps hs _ ih =>
    obtain ⟨huses, hnode⟩ := hs
    have hkey : (stepNode t parent s').key = (stepNode t parent s).key := by
      rw [hnode, Node.key_withEnv]
    rw [stepFacts, stepFacts, ← stepNode, ← stepNode, List.map_append, List.map_append,
      List.map_append, followFacts_withEnv, usedFacts_withEnv, ← ih, hkey, huses, hnode]
    · rfl
    · intro n hn
      obtain ⟨a, -, rfl⟩ := Option.map_eq_some_iff.mp hn
      exact .inr rfl

namespace ChangesEnv

variable (h : ChangesEnv t d key env f)

include h

lemma key_jobNode (j : Document.Job) : (jobNode d (f j)).key = (jobNode d j).key := by
  rw [h.node, Node.key_withEnv]

lemma knownNeeds (j : Document.Job) : knownNeeds (d.mapJobs f) (f j) = Graph.knownNeeds d j := by
  have hname (need : String) :
      (d.mapJobs f).jobs.any (·.name = need) = d.jobs.any (·.name = need) := by
    rw [Document.jobs_mapJobs, List.any_map]
    exact congrArg d.jobs.any (funext fun j => by rw [Function.comp_apply, h.name])
  simp only [Graph.knownNeeds, hname, h.needs]

lemma ownFacts (j : Document.Job) :
    ownFacts (d.mapJobs f) (f j) = (Graph.ownFacts d j).map (Fact.withEnv key env) := by
  have hused : ∀ n ∈ (j.uses.bind (calledWorkflow d)).map Node.workflow,
      n.kind = .workflow ∨ n.kind = .action := by
    intro n hn
    obtain ⟨w, -, rfl⟩ := Option.map_eq_some_iff.mp hn
    exact .inl rfl
  have hcontains : (if (Graph.knownNeeds d j).isEmpty then
      [Fact.edge (workflowNode d).key (jobNode d j).key .contains] else []).map
        (Fact.withEnv key env) = if (Graph.knownNeeds d j).isEmpty then
      [Fact.edge (workflowNode d).key (jobNode d j).key .contains] else [] := by
    split <;> rfl
  rw [Graph.ownFacts, Graph.ownFacts, h.knownNeeds, jobNode_mapJobs, h.key_jobNode,
    workflowNode_mapJobs, h.uses, calledWorkflow_mapJobs, List.map_append, List.map_append,
    usedFacts_withEnv hused, List.map_map, hcontains]
  rfl

lemma jobFacts (j : Document.Job) :
    jobFacts t (d.mapJobs f) (f j) = (Graph.jobFacts t d j).map (Fact.withEnv key env) := by
  have hparent : Parent.ofJob d (f j) = .ofJob d j := by
    have hname : (jobNode d (f j)).name = (jobNode d j).name := congrArg Key.name (h.key_jobNode j)
    rw [Parent.ofJob, Parent.ofJob, h.key_jobNode, hname, h.name]
  rw [jobFacts_eq, jobFacts_eq, h.ownFacts, ofJob_mapJobs, hparent, stepFacts_withEnv (h.steps j),
    List.map_append]

lemma workflowFacts :
    workflowFacts t (d.mapJobs f) = (Graph.workflowFacts t d).map (Fact.withEnv key env) := by
  cases hv : d.isValid with
  | false => simp [Graph.workflowFacts, Document.isValid_mapJobs, hv]
  | true =>
    have hnodes : (d.jobs.map f).map (fun j => Fact.node (jobNode (d.mapJobs f) j)) =
        (d.jobs.map fun j => Fact.node (jobNode d j)).map (Fact.withEnv key env) := by
      rw [List.map_map, List.map_map]
      refine List.map_congr_left fun j _ => ?_
      rw [Function.comp_apply, jobNode_mapJobs, h.node]
      rfl
    have hjobs : (d.jobs.map f).flatMap (Graph.jobFacts t (d.mapJobs f)) =
        (d.jobs.flatMap (Graph.jobFacts t d)).map (Fact.withEnv key env) := by
      rw [List.flatMap_map, List.map_flatMap]
      exact List.flatMap_congr fun j _ => h.jobFacts j
    rw [workflowFacts_eq hv, workflowFacts_eq ((Document.isValid_mapJobs f d).trans hv), heading,
      heading, Document.jobs_mapJobs, hnodes, hjobs, workflowNode_mapJobs, List.map_append,
      List.map_append]
    rfl

end ChangesEnv

/-- The graph that a document comes into between other operations. -/
def within (before after : List Operation) (t : Classification.Tables) (d : Document) : Graph :=
  (IndexedGraph.ofOperations (before ++ .addWorkflow t d :: after)).toGraph

lemma within_eq (before after : List Operation) (t : Classification.Tables) (d : Document) :
    within before after t d =
      after.foldl perform ((IndexedGraph.ofOperations before).toGraph.addWorkflow t d) := by
  rw [within, (IndexedGraph.represents_ofOperations _).graph,
    (IndexedGraph.represents_ofOperations before).graph, List.foldl_append, List.foldl_cons]
  rfl

lemma isKeyed_ofOperations (os : List Operation) :
    (IndexedGraph.ofOperations os).toGraph.IsKeyed :=
  (IndexedGraph.represents_ofOperations os).indexed.keyed

/-- The node that a document brings along has the environment that the document gives it. -/
lemma ChangesEnv.within_eq (h : ChangesEnv t d key env f) (hscoped : key.IsScoped)
    {before : List Operation} (hnew : (IndexedGraph.ofOperations before).toGraph.number? key = none)
    (hstated : key ∈ statedKeys (Graph.workflowFacts t d)) (after : List Operation) :
    within before after t (d.mapJobs f) = (within before after t d).withEnv key env := by
  set g := (IndexedGraph.ofOperations before).toGraph with hg
  have hk : g.IsKeyed := isKeyed_ofOperations before
  have hk' : (g.addWorkflow t d).IsKeyed := (grows_addWorkflow t d g).keyed hk
  obtain ⟨n, hn, hkey⟩ := exists_of_mem_statedKeys hstated
  have hpresent : ((g.addWorkflow t d).number? key).isSome = true := by
    obtain ⟨i, m, hm, hkey', -⟩ := holds_addWorkflow hk hn
    exact isSome_number?_iff.mpr ⟨m, List.mem_of_getElem? hm, hkey'.trans hkey⟩
  have hfacts : g.addWorkflow t (d.mapJobs f) = (g.addWorkflow t d).withEnv key env := by
    rw [addWorkflow, addWorkflow, h.workflowFacts, ← addAll_withEnv, withEnv_eq_self hnew]
  rw [Graph.within_eq, Graph.within_eq, ← hg, hfacts,
    foldl_withEnv grows_perform (fun g o hk h => perform_withEnv hk hscoped h o) hk' hpresent]

lemma withEnv_jobNode_of_step (name : String) (j : Document.Job) :
    (jobNode d j).withEnv ⟨.step, name⟩ env = jobNode d j :=
  Node.withEnv_of_ne fun h => Kind.noConfusion (congrArg Key.kind h)

lemma withEnv_stepNode_of_job (parent : Parent) (name : String) (s : Document.Step) :
    (stepNode t parent s).withEnv ⟨.job, name⟩ env = stepNode t parent s :=
  Node.withEnv_of_ne fun h => Kind.noConfusion (congrArg Key.kind h)

lemma changesEnv_job (t : Classification.Tables) (d : Document) (job : String)
    (env : Assoc String) :
    ChangesEnv t d ⟨.job, jobName (workflowNode d).name job⟩ env fun j =>
      if j.name = job then { j with env := env } else j where
  name j := by split <;> rfl
  needs j := by split <;> rfl
  uses j := by split <;> rfl
  node j := by
    have hkey : (jobNode d j).key = ⟨.job, jobName (workflowNode d).name job⟩ ↔ j.name = job := by
      rw [key_jobNode, Key.mk.injEq, jobName_inj, and_iff_right rfl]
    split
    · next hj => exact congrArg Node.job (if_pos (hkey.mpr hj)).symm
    · next hj => exact (Node.withEnv_of_ne (mt hkey.mp hj)).symm
  steps j := by
    have hsteps : (if j.name = job then { j with env := env } else j).steps = j.steps := by
      split <;> rfl
    rw [hsteps, List.forall₂_same]
    exact fun s _ => ⟨rfl, (withEnv_stepNode_of_job _ _ s).symm⟩

lemma changesEnv_step (t : Classification.Tables) (d : Document) (job : String) (i : Nat)
    (env : Assoc String) :
    ChangesEnv t d ⟨.step, stepName (jobName (workflowNode d).name job) i⟩ env fun j =>
      if j.name = job then
        { j with steps := j.steps.map fun s => if s.index = i then { s with env := env } else s }
      else j where
  name j := by split <;> rfl
  needs j := by split <;> rfl
  uses j := by split <;> rfl
  node j := by
    rw [withEnv_jobNode_of_step]
    split <;> rfl
  steps j := by
    have hkey (s : Document.Step) : (stepNode t (.ofJob d j) s).key =
        ⟨.step, stepName (jobName (workflowNode d).name job) i⟩ ↔ j.name = job ∧ s.index = i := by
      rw [key_stepNode, Key.mk.injEq, stepName_inj, and_iff_right rfl]
      exact and_congr_left fun _ => jobName_inj
    split
    · next hj =>
      rw [List.forall₂_map_left_iff, List.forall₂_same]
      intro s _
      split
      · next hs => exact ⟨rfl, congrArg Node.step (if_pos ((hkey s).mpr ⟨hj, hs⟩)).symm⟩
      · next hs => exact ⟨rfl, (Node.withEnv_of_ne fun h => hs ((hkey s).mp h).2).symm⟩
    · next hj =>
      rw [List.forall₂_same]
      exact fun s _ => ⟨rfl, (Node.withEnv_of_ne fun h => hj ((hkey s).mp h).1).symm⟩

lemma stepNode_mem_stepFacts {parent : Parent} {previous : Option Key} {steps : List Document.Step}
    {s : Document.Step} (h : s ∈ steps) :
    .node (stepNode t parent s) ∈ stepFacts t parent previous steps := by
  obtain ⟨xs, ys, rfl⟩ := List.append_of_mem h
  rw [stepFacts_append, stepFacts]
  simp [stepNode]

lemma within_withJobEnv (hj : j ∈ d.jobs) {before : List Operation}
    (hnew : (IndexedGraph.ofOperations before).toGraph.number? (jobNode d j).key = none)
    (after : List Operation) (env : Assoc String) :
    within before after t (d.withJobEnv j.name env) =
      (within before after t d).withEnv (jobNode d j).key env := by
  refine (changesEnv_job t d j.name env).within_eq (.inl rfl) hnew ?_ after
  refine mem_statedKeys (n := jobNode d j) ?_
  rw [workflowFacts_eq (isValid_of_mem_jobs hj)]
  exact List.mem_append_left _ (List.mem_append_right _ (List.mem_map.mpr ⟨j, hj, rfl⟩))

lemma within_withStepEnv {s : Document.Step} (hj : j ∈ d.jobs) (hs : s ∈ j.steps)
    {before : List Operation}
    (hnew : (IndexedGraph.ofOperations before).toGraph.number?
      (stepNode t (.ofJob d j) s).key = none)
    (after : List Operation) (env : Assoc String) :
    within before after t (d.withStepEnv j.name s.index env) =
      (within before after t d).withEnv (stepNode t (.ofJob d j) s).key env := by
  refine (changesEnv_step t d j.name s.index env).within_eq (.inr rfl) hnew ?_ after
  refine mem_statedKeys (n := stepNode t (.ofJob d j) s) (mem_workflowFacts_of_job hj ?_)
  rw [jobFacts_eq]
  exact List.mem_append_right _ (stepNode_mem_stepFacts hs)

end Graph

end WorkflowAudit
