import WorkflowAudit.Proofs.Graph.DocumentPaths
import WorkflowAudit.Proofs.Graph.Indexes

/-! What the references of a workflow bring in leaves its own jobs and steps alone: the edges from
and to these are the ones that the workflow states itself. -/

namespace WorkflowAudit.Graph

open Source (Knowledge)

/-- The keys of a workflow's jobs and of what stands below them. -/
def IsOwnKey (d : Document) (key : Key) : Prop :=
  ∃ j ∈ d.jobs, key = (jobNode d j).key ∨ ∃ i, key = ⟨.step, stepName (jobNode d j).name i⟩

/-- A graph that has grown from that of a workflow without new edges at its jobs and steps. -/
structure Encloses (t : Classification.Tables) (d : Document) (g : Graph) : Prop
    extends Includes t d g where
  edges : ∀ (x y : Nat) (r : Relation), ⟨x, y, r⟩ ∈ g.edges → ∃ n m : Node,
    g.nodes[x]? = some n ∧ g.nodes[y]? = some m ∧
      (IsOwnKey d n.key ∨ IsOwnKey d m.key → .edge n.key m.key r ∈ workflowFacts t d)

/-- No workflow or action that is known has jobs or steps by the names of a workflow's own ones. -/
structure HasNoNamesake (k : Knowledge) (d : Document) : Prop where
  workflows : ∀ (w : Workflow) (d' : Document), k.workflow (.of w.repo w.ref w.path) = some d' →
    d' = d ∨ ∀ j ∈ d.jobs, ∀ j' ∈ d'.jobs, (jobNode d' j').name ≠ (jobNode d j).name
  actions : ∀ (a : Action) (d' : Document), k.action (.of a.repo a.ref a.path) = some d' →
    ∀ j ∈ d.jobs, jobName a.name Document.compositeJob ≠ (jobNode d j).name

variable {t : Classification.Tables} {d d' : Document} {j j' : Document.Job}
  {s s' : Document.Step} {g g' : Graph} {a b : Key} {r : Relation} {n m : Node} {x y i : Nat}
  {facts : List Fact}

lemma isOwnKey_step_iff {name : String} :
    IsOwnKey d ⟨.step, stepName name i⟩ ↔ ∃ j ∈ d.jobs, name = (jobNode d j).name := by
  constructor
  · rintro ⟨j, hj, hkey | ⟨i', hkey⟩⟩
    · cases congrArg Key.kind hkey
    · exact ⟨j, hj, (stepName_inj.mp (congrArg Key.name hkey)).1⟩
  · rintro ⟨j, hj, rfl⟩
    exact ⟨j, hj, Or.inr ⟨i, rfl⟩⟩

lemma States.not_isOwnKey (h : States t d' n)
    (hne : ∀ j ∈ d.jobs, ∀ j' ∈ d'.jobs, (jobNode d' j').name ≠ (jobNode d j).name) :
    ¬ IsOwnKey d n.key := by
  rintro ⟨j, hj, hkey | ⟨i, hkey⟩⟩
  · cases h with
    | job hj' => exact hne j hj _ hj' (congrArg Key.name hkey)
    | _ => cases congrArg Key.kind hkey
  · cases h with
    | step hj' hs => exact hne j hj _ hj' (stepName_inj.mp (congrArg Key.name hkey)).1
    | _ => cases congrArg Key.kind hkey

/-- What a workflow states itself, or what touches none of its jobs and steps. -/
def IsApartFrom (t : Classification.Tables) (d : Document) (facts : List Fact) : Prop :=
  ∀ a b r, .edge a b r ∈ facts → IsOwnKey d a ∨ IsOwnKey d b → .edge a b r ∈ workflowFacts t d

lemma isApartFrom_workflowFacts (h : d' = d ∨
    ∀ j ∈ d.jobs, ∀ j' ∈ d'.jobs, (jobNode d' j').name ≠ (jobNode d j).name) :
    IsApartFrom t d (workflowFacts t d') := by
  rintro a b r he hown
  rcases h with rfl | hne
  · exact he
  · have hv : d'.isValid = true := isValid_of_mem_workflowFacts he
    have hforeign : ∀ key ∈ statedKeys (workflowFacts t d'), ¬ IsOwnKey d key := by
      intro key hkey
      obtain ⟨n, hn, rfl⟩ := exists_of_mem_statedKeys hkey
      exact (states_of_mem hn).not_isOwnKey hne
    obtain ⟨ha, hb⟩ := (isGrounded_workflowFacts hv).mem_of_edge he
    rw [List.append_nil] at ha hb
    exact absurd hown (not_or.mpr ⟨hforeign a ha, hforeign b hb⟩)

lemma isApartFrom_actionFacts {action : Action}
    (h : ∀ j ∈ d.jobs, jobName action.name Document.compositeJob ≠ (jobNode d j).name) :
    IsApartFrom t d (actionFacts t action d') := by
  rintro a b r he hown
  rw [actionFacts] at he
  split at he
  · obtain ⟨j', -, he⟩ := List.mem_flatMap.mp he
    set parent : Parent := ⟨(Node.action action).key, jobName action.name Document.compositeJob,
      Document.compositeJob, action.repo, action.ref⟩
    have haction : ∀ action : Action, ¬ IsOwnKey d (Node.action action).key := by
      rintro action ⟨j, -, hkey | ⟨i, hkey⟩⟩ <;> cases congrArg Key.kind hkey
    have hforeign : ∀ key ∈ statedKeys (stepFacts t parent none j'.steps) ++ [parent.key],
        ¬ IsOwnKey d key := by
      intro key hkey
      rcases List.mem_append.mp hkey with hkey | hkey
      · obtain ⟨n, hn, rfl⟩ := exists_of_mem_statedKeys hkey
        rcases node_mem_stepFacts hn with ⟨s, -, rfl⟩ | ⟨-, -, -, -, used, -, rfl⟩
        · rw [key_stepNode, isOwnKey_step_iff]
          rintro ⟨j, hj, hname⟩
          exact h j hj hname
        · exact haction used
      · rw [List.mem_singleton.mp hkey]
        exact haction action
    have hgrounded : IsGrounded [parent.key] (stepFacts t parent none j'.steps) :=
      isGrounded_stepFacts (by simp) (by simp)
    obtain ⟨ha, hb⟩ := hgrounded.mem_of_edge he
    exact absurd hown (not_or.mpr ⟨hforeign a ha, hforeign b hb⟩)
  · exact absurd he List.not_mem_nil

lemma isApartFrom_referenceFacts {k : Knowledge} (h : HasNoNamesake k d) (n : Node) :
    IsApartFrom t d (IndexedGraph.referenceFacts k t n) := by
  have hnil : IsApartFrom t d [] := fun _ _ _ he => absurd he List.not_mem_nil
  cases n with
  | workflow w =>
    rw [IndexedGraph.referenceFacts]
    cases hw : k.workflow (.of w.repo w.ref w.path) with
    | none => exact hnil
    | some d' => exact isApartFrom_workflowFacts (h.workflows w d' hw)
  | action action =>
    rw [IndexedGraph.referenceFacts]
    cases ha : k.action (.of action.repo action.ref action.path) with
    | none => exact hnil
    | some d' =>
      rw [Option.filter_some]
      split
      · exact isApartFrom_actionFacts (h.actions action d' ha)
      · exact hnil
  | repo _ | job _ | step _ => exact hnil

lemma Includes.node_eq (h : Includes t d g) (hm : m ∈ (ofWorkflow t d).nodes)
    (hread : m.isInitialized = true) (hx : g.nodes[x]? = some n) (hkey : n.key = m.key) :
    n = m := by
  obtain ⟨y, hy⟩ := h.exists_of_mem hread hm
  obtain rfl := h.keyed.eq hx hy hkey
  exact Option.some.inj (hx.symm.trans hy)

lemma encloses_ofWorkflow (t : Classification.Tables) (d : Document) :
    Encloses t d (ofWorkflow t d) := by
  refine ⟨includes_ofWorkflow t d, fun x y r he => ?_⟩
  rcases mem_edges_addAll isKeyed_empty he with he | ⟨a, b, he, ha, hb⟩
  · exact absurd he List.not_mem_nil
  · obtain ⟨n, hn, rfl⟩ := exists_of_number? ha
    obtain ⟨m, hm, rfl⟩ := exists_of_number? hb
    exact ⟨n, m, hn, hm, fun _ => he⟩

lemma Encloses.of_grows (h : Encloses t d g) (hg : g.Grows g')
    (hnew : ∀ x y r, ⟨x, y, r⟩ ∈ g'.edges → ⟨x, y, r⟩ ∈ g.edges ∨ ∃ a b : Key,
      g'.number? a = some x ∧ g'.number? b = some y ∧
        (IsOwnKey d a ∨ IsOwnKey d b → .edge a b r ∈ workflowFacts t d)) :
    Encloses t d g' := by
  refine ⟨⟨h.grows.trans hg, hg.keyed h.keyed⟩, fun x y r he => ?_⟩
  rcases hnew x y r he with he | ⟨a, b, ha, hb, hown⟩
  · obtain ⟨n, m, hn, hm, hown⟩ := h.edges x y r he
    obtain ⟨n', hn', hfn⟩ := hg.nodes x n hn
    obtain ⟨m', hm', hfm⟩ := hg.nodes y m hm
    exact ⟨n', m', hn', hm', by rwa [hfn.key, hfm.key]⟩
  · obtain ⟨n, hn, rfl⟩ := exists_of_number? ha
    obtain ⟨m, hm, rfl⟩ := exists_of_number? hb
    exact ⟨n, m, hn, hm, hown⟩

lemma Encloses.addAll (h : Encloses t d g) (hfacts : IsApartFrom t d facts) :
    Encloses t d (g.addAll facts) := by
  refine h.of_grows (grows_addAll g facts) fun x y r he => ?_
  exact (mem_edges_addAll h.keyed he).imp_right fun ⟨a, b, he, ha, hb⟩ =>
    ⟨a, b, ha, hb, hfacts a b r he⟩

lemma Encloses.markInitialized (h : Encloses t d g) (i : Nat) :
    Encloses t d (g.markInitialized i) :=
  h.of_grows (grows_markInitialized g i) fun _ _ _ he => Or.inl he

section Resolution

variable {k : Knowledge}

lemma Encloses.resolveNode (h : Encloses t d g) (hk : HasNoNamesake k d) (i : Nat) :
    Encloses t d (Audit.resolveNode k t g i) := by
  rw [Audit.resolveNode, IndexedGraph.markInitialized_addReference]
  refine (h.addAll ?_).markInitialized i
  cases g.nodes[i]? with
  | none => exact fun _ _ _ he => absurd he List.not_mem_nil
  | some n => exact isApartFrom_referenceFacts hk n

lemma Encloses.foldl_resolveNode (h : Encloses t d g) (hk : HasNoNamesake k d) (is : List Nat) :
    Encloses t d (is.foldl (Audit.resolveNode k t) g) := by
  induction is generalizing g with
  | nil => exact h
  | cons i is ih => exact ih (h.resolveNode hk i)

lemma Encloses.resolveRounds (h : Encloses t d g) (hk : HasNoNamesake k d) (entries : List Nat)
    (rounds : Nat) : Encloses t d (Audit.resolveRounds k t entries rounds g) := by
  induction rounds generalizing g with
  | zero => exact h
  | succ rounds ih => exact ih (h.foldl_resolveNode hk _)

/-- An audit of a workflow on its own looks at a graph that encloses the workflow's. -/
lemma encloses_resolved (hk : HasNoNamesake k d) :
    Encloses t d (Audit.resolved k t (ofWorkflow t d)) :=
  (encloses_ofWorkflow t d).resolveRounds hk _ _

end Resolution

end WorkflowAudit.Graph
