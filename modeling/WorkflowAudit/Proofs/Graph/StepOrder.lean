import WorkflowAudit.Proofs.Graph.EdgeKinds

/-! The steps of a job or an action stand in a row. Below a parent they are known by their places,
and apart from the parent itself only the step before leads to a step, so that a path comes to a
step past all of those before it. -/

namespace WorkflowAudit

/-- The name of a step is that of its place. -/
def Graph.Step.IsNamed (s : Graph.Step) : Prop :=
  ∃ parent, s.name = Graph.stepName parent s.index

/-- Steps come in under the names of their places. -/
def Operation.IsNumbered : Operation → Prop
  | .insert (.step s) => s.IsNamed
  | .addWorkflow _ d => d.IsNumbered
  | .addAction _ d _ => d.IsNumbered
  | .resolve k _ _ =>
    (∀ key, ∀ d ∈ k.workflow key, d.IsNumbered) ∧ ∀ key, ∀ d ∈ k.action key, d.IsNumbered
  | _ => True

namespace Graph

def stepKey (parent : String) (index : Nat) : Key := ⟨.step, stepName parent index⟩

/-- What comes first in the names of the steps of a job or an action. -/
def Key.stepsName (key : Key) : String :=
  if key.kind = .action then jobName key.name Document.compositeJob else key.name

/-- The step of a place below a job or an action. -/
def IsStepOf (g : Graph) (x i y : Nat) : Prop :=
  ⟨x, y, .contains⟩ ∈ g.edges ∧ ∃ s, g.nodes[y]? = some (.step s) ∧ s.index = i

instance (g : Graph) (x i y : Nat) : Decidable (g.IsStepOf x i y) :=
  decidable_of_iff (⟨x, y, .contains⟩ ∈ g.edges ∧ g.nodes[y]?.any fun
      | .step s => s.index = i
      | _ => false) <| by
    refine and_congr_right fun _ => ?_
    rw [Option.any_eq_true]
    constructor
    · rintro ⟨n, hn, hi⟩
      cases n with
      | step s => exact ⟨s, hn, by simpa using hi⟩
      | repo _ | workflow _ | job _ | action _ => cases hi
    · rintro ⟨s, hs, hi⟩
      exact ⟨.step s, hs, by simpa using hi⟩

/-- The edges to steps where edges only come in with documents. -/
structure IsOrdered (g : Graph) : Prop where
  keyed : g.IsKeyed
  sorted : ∀ e ∈ g.edges, g.IsSorted e
  contained : ∀ a b, g.Links a b .contains → b.kind = .step →
    ∃ i, b = stepKey a.stepsName i ∧ ∀ k < i, g.Links a (stepKey a.stepsName k) .contains
  follows : ∀ a b, g.Links a b .next →
    ∃ parent i, a = stepKey parent i ∧ b = stepKey parent (i + 1)

variable {g : Graph} {o : Operation} {facts : List Fact} {t : Classification.Tables}
  {d : Document} {parent : Parent} {steps : List Document.Step} {a b : Key} {r : Relation}
  {x y z i k : Nat} {n : Node} {s : Step}

lemma stepKey_inj {p q : String} : stepKey p i = stepKey q k ↔ p = q ∧ i = k := by
  rw [stepKey, stepKey, Key.mk.injEq, stepName_inj, and_iff_right rfl]

lemma Step.IsNamed.index_eq {parent : String} (h : s.IsNamed) (hname : s.name = stepName parent i) :
    s.index = i := by
  obtain ⟨q, hq⟩ := h
  exact (stepName_inj.mp (hq.symm.trans hname)).2

/-- A parent whose steps are known by their places. -/
structure Lists (parent : Parent) (steps : List Document.Step) : Prop where
  joins : Relation.contains.joins parent.key.kind .step = true
  name : parent.key.stepsName = parent.name
  index : ∀ (i : Nat) (s : Document.Step), steps[i]? = some s → s.index = i

lemma Lists.edge_iff (h : Lists parent steps) (hb : b.kind = .step) :
    .edge a b r ∈ stepFacts t parent none steps ↔
      (r = .contains ∧ a = parent.key ∧ ∃ i < steps.length, b = stepKey parent.name i) ∨
        r = .next ∧ ∃ i, i + 1 < steps.length ∧ a = stepKey parent.name i ∧
          b = stepKey parent.name (i + 1) := by
  have hkey {i : Nat} (hi : i < steps.length) :
      (stepNode t parent steps[i]).key = stepKey parent.name i := by
    rw [key_stepNode, h.index i _ (List.getElem?_eq_getElem hi), stepKey]
  constructor
  · intro he
    have hsorted : AreSorted (stepFacts t parent none steps) :=
      areSorted_stepFacts h.joins (by simp) steps
    have hjoins := hsorted a b r he
    rcases edge_mem_stepFacts he with ⟨s, hs, rfl, rfl, rfl⟩ |
      (⟨s, -, hnone, -⟩ | ⟨i, s, s', hs, hs', rfl, rfl⟩) | haction
    · obtain ⟨i, hi, rfl⟩ := List.getElem_of_mem hs
      exact Or.inl ⟨rfl, rfl, i, hi, hkey hi⟩
    · exact absurd hnone (by simp)
    · obtain ⟨hi, rfl⟩ := List.getElem?_eq_some_iff.mp hs
      obtain ⟨hi', rfl⟩ := List.getElem?_eq_some_iff.mp hs'
      refine Or.inr ⟨?_, i, hi', hkey hi, hkey hi'⟩
      cases r with
      | next => rfl
      | contains | needs | uses => cases hjoins
    · cases hb.symm.trans haction
  · rintro (⟨rfl, rfl, i, hi, rfl⟩ | ⟨rfl, i, hi, rfl, rfl⟩)
    · rw [← hkey hi]
      exact contains_mem_stepFacts (List.getElem_mem hi)
    · rw [← hkey hi, ← hkey (Nat.lt_of_succ_lt hi)]
      exact next_mem_stepFacts (List.getElem?_eq_getElem _) (List.getElem?_eq_getElem _)

/-- Among facts an edge stands with all steps of a parent. -/
def IsInRow (facts : List Fact) (a b : Key) (r : Relation) : Prop :=
  ∃ t parent steps, Lists parent steps ∧ .edge a b r ∈ stepFacts t parent none steps ∧
    stepFacts t parent none steps ⊆ facts

lemma isInRow_workflowFacts (hd : d.IsNumbered) (he : .edge a b r ∈ workflowFacts t d)
    (hb : b.kind = .step) : IsInRow (workflowFacts t d) a b r := by
  rcases edge_mem_workflowFacts he with hkind | ⟨j, hj, he⟩
  · cases hb.symm.trans hkind
  · rcases edge_mem_jobFacts he with ⟨rfl, -⟩ | hkind | he
    · cases hb
    · cases hb.symm.trans hkind
    · refine ⟨t, .ofJob d j, j.steps, ⟨rfl, rfl, hd j hj⟩, he, fun fact hfact => ?_⟩
      exact mem_workflowFacts_of_job hj (List.mem_append_right _ hfact)

lemma isInRow_actionFacts {action : Action} (hd : d.IsNumbered)
    (he : .edge a b r ∈ actionFacts t action d) : IsInRow (actionFacts t action d) a b r := by
  rw [actionFacts] at he ⊢
  split at he
  · next hc =>
    rw [if_pos hc]
    obtain ⟨j, hj, he⟩ := List.mem_flatMap.mp he
    refine ⟨t, _, j.steps, ⟨rfl, rfl, hd j hj⟩, he, fun fact hfact => ?_⟩
    exact List.mem_flatMap.mpr ⟨j, hj, hfact⟩
  · exact absurd he List.not_mem_nil

lemma Brings.isInRow (h : g.Brings o facts) (ho : o.IsNumbered) (he : .edge a b r ∈ facts)
    (hb : b.kind = .step) : IsInRow facts a b r := by
  cases h with
  | node n => cases List.mem_singleton.mp he
  | workflow t d => exact isInRow_workflowFacts ho he hb
  | action t d _ => exact isInRow_actionFacts ho he
  | resolvedWorkflow _ hd => exact isInRow_workflowFacts (ho.1 _ _ hd) he hb
  | resolvedAction _ hd => exact isInRow_actionFacts (ho.2 _ _ hd) he

lemma exists_stepNode_of_mem_workflowFacts (hs : .node (.step s) ∈ workflowFacts t d) :
    ∃ parent s', .step s = stepNode t parent s' := by
  generalize hn : Node.step s = n at hs
  cases states_of_mem hs with
  | step _ _ => exact ⟨_, _, rfl⟩
  | repo | workflow | job _ | called _ _ _ | used _ _ _ _ => cases hn

lemma exists_stepNode_of_mem_actionFacts {action : Action}
    (hs : .node (.step s) ∈ actionFacts t action d) : ∃ parent s', .step s = stepNode t parent s' := by
  rw [actionFacts] at hs
  split at hs
  · obtain ⟨j, -, hs⟩ := List.mem_flatMap.mp hs
    rcases node_mem_stepFacts hs with ⟨s', -, hs⟩ | ⟨_, -, _, -, _, -, hs⟩
    · exact ⟨_, s', hs⟩
    · cases hs
  · exact absurd hs List.not_mem_nil

/-- A step comes in on its own or with a document. -/
lemma Brings.exists_stepNode (h : g.Brings o facts) (hs : .node (.step s) ∈ facts) :
    o = .insert (.step s) ∨ ∃ t parent s', .step s = stepNode t parent s' := by
  cases h with
  | node n =>
    obtain rfl := Fact.node.inj (List.mem_singleton.mp hs)
    exact .inl rfl
  | workflow t d => exact .inr ⟨t, exists_stepNode_of_mem_workflowFacts hs⟩
  | action t d _ => exact .inr ⟨t, exists_stepNode_of_mem_actionFacts hs⟩
  | resolvedWorkflow _ _ => exact .inr ⟨_, exists_stepNode_of_mem_workflowFacts hs⟩
  | resolvedAction _ _ => exact .inr ⟨_, exists_stepNode_of_mem_actionFacts hs⟩

lemma mem_nodes_markInitialized_of_step (h : .step s ∈ (g.markInitialized i).nodes) :
    .step s ∈ g.nodes := by
  obtain ⟨j, hj⟩ := List.mem_iff_getElem?.mp h
  rw [markInitialized, List.getElem?_modify] at hj
  obtain ⟨n, hn, hs⟩ := Option.map_eq_some_iff.mp hj
  have heq : n = .step s := by
    split at hs
    · cases n with
      | step s' => exact hs
      | repo _ | workflow _ | job _ | action _ => cases hs
    · exact hs
  exact heq ▸ List.mem_of_getElem? hn

lemma step_of_mem_nodes {os : List Operation} :
    ∀ s, .step s ∈ (IndexedGraph.ofOperations os).toGraph.nodes →
      .insert (.step s) ∈ os ∨ ∃ t parent s', .step s = stepNode t parent s' := by
  apply foldl_perform_induction (P := fun g : Graph => ∀ s, .step s ∈ g.nodes →
    .insert (.step s) ∈ os ∨ ∃ t parent s', .step s = stepNode t parent s')
  · exact fun s hs => absurd hs List.not_mem_nil
  · exact fun g i h s hs => h s (mem_nodes_markInitialized_of_step hs)
  · intro g i j r _ h s hs
    rw [nodes_connect] at hs
    exact h s hs
  · intro g facts o ho _ h hbrings s hs
    rcases mem_nodes_addAll hs with hold | hnew
    · exact h s hold
    · rcases hbrings.exists_stepNode hnew with rfl | hstep
      · exact .inl ho
      · exact .inr hstep

/-- A step goes by the name of its place, whatever edges there are. -/
lemma isNamed_of_mem_nodes {os : List Operation} (hos : ∀ o ∈ os, o.IsNumbered) (s : Step)
    (hs : .step s ∈ (IndexedGraph.ofOperations os).toGraph.nodes) : s.IsNamed := by
  obtain hinsert | ⟨t, parent, s', heq⟩ := step_of_mem_nodes s hs
  · exact hos _ hinsert
  · obtain rfl := Node.step.inj heq
    exact ⟨parent.name, rfl⟩

lemma number?_markInitialized (g : Graph) (i : Nat) (key : Key) :
    (g.markInitialized i).number? key = g.number? key := by
  have hkeys (g : Graph) : g.number? key = (g.nodes.map Node.key).findIdx? fun k => k = key := by
    rw [List.findIdx?_map]
    rfl
  rw [hkeys, hkeys, markInitialized, map_key_modify fun n _ => n.follows_asInitialized.key]

lemma links_markInitialized_iff : (g.markInitialized i).Links a b r ↔ g.Links a b r := by
  simp only [Links, number?_markInitialized]
  rfl

lemma isOrdered_empty : empty.IsOrdered := by
  refine ⟨isKeyed_empty, ?_, ?_, ?_⟩ <;> simp [empty, Links]

lemma IsOrdered.markInitialized (h : g.IsOrdered) (i : Nat) : (g.markInitialized i).IsOrdered where
  keyed := (grows_markInitialized g i).keyed h.keyed
  sorted := isSorted_markInitialized h.sorted i
  contained a b hl hb := by
    simp only [links_markInitialized_iff] at hl ⊢
    exact h.contained a b hl hb
  follows a b hl := h.follows a b (links_markInitialized_iff.mp hl)

lemma IsOrdered.lt_length (h : g.IsOrdered) :
    ∀ e ∈ g.edges, e.source < g.nodes.length ∧ e.target < g.nodes.length := by
  intro e he
  obtain ⟨n, m, hn, hm, -⟩ := h.sorted e he
  exact ⟨(List.getElem?_eq_some_iff.mp hn).1, (List.getElem?_eq_some_iff.mp hm).1⟩

lemma IsOrdered.addAll (h : g.IsOrdered) (ho : o.IsNumbered) (hbrings : g.Brings o facts) :
    (g.addAll facts).IsOrdered where
  keyed := (grows_addAll g facts).keyed h.keyed
  sorted := isSorted_addAll h.keyed h.sorted hbrings.areSorted
  contained a b hl hb := by
    have hgrows := grows_addAll g facts
    rcases links_of_links_addAll h.keyed h.lt_length hl with hl | he
    · obtain ⟨i, rfl, hbefore⟩ := h.contained a b hl hb
      exact ⟨i, rfl, fun k hk => hgrows.links (hgrows.keyed h.keyed) (hbefore k hk)⟩
    · obtain ⟨t, parent, steps, hlists, he, hsub⟩ := hbrings.isInRow ho he hb
      rcases (hlists.edge_iff hb).mp he with ⟨-, rfl, i, hi, rfl⟩ | ⟨hnext, -⟩
      · rw [hlists.name]
        refine ⟨i, rfl, fun k hk => hbrings.links h.keyed (hsub ?_)⟩
        exact (hlists.edge_iff rfl).mpr (Or.inl ⟨rfl, rfl, k, hk.trans hi, rfl⟩)
      · cases hnext
  follows a b hl := by
    rcases links_of_links_addAll h.keyed h.lt_length hl with hl | he
    · exact h.follows a b hl
    · have hb : b.kind = .step := by
        have hjoins := hbrings.areSorted a b _ he
        cases ha : a.kind <;> cases hb : b.kind <;> simp_all [Relation.joins]
      obtain ⟨t, parent, steps, hlists, he, -⟩ := hbrings.isInRow ho he hb
      rcases (hlists.edge_iff hb).mp he with ⟨hcontains, -⟩ | ⟨-, i, -, ha, hb⟩
      · cases hcontains
      · exact ⟨parent.name, i, ha, hb⟩

lemma isOrdered_ofOperations {os : List Operation}
    (hos : ∀ o ∈ os, o.isConnect = false ∧ o.IsNumbered) :
    (IndexedGraph.ofOperations os).toGraph.IsOrdered := by
  apply foldl_perform_induction (P := IsOrdered)
  · exact isOrdered_empty
  · exact fun g i h => h.markInitialized i
  · exact fun g i j r hmem => absurd (hos _ hmem).1 (by simp [Operation.isConnect])
  · exact fun g facts o ho _ h hbrings => h.addAll (hos o ho).2 hbrings

/-- A step is entered from the step before it, and only the first one from a parent. -/
lemma IsOrdered.entered (h : g.IsOrdered) (hnamed : ∀ s, .step s ∈ g.nodes → s.IsNamed)
    {parent : String} (hs : g.nodes[y]? = some (.step s)) (hname : s.name = stepName parent i)
    (hxy : y ∈ g.successors x) :
    i = 0 ∧ ⟨x, y, .contains⟩ ∈ g.edges ∨
      ∃ k s', i = k + 1 ∧ g.nodes[x]? = some (.step s') ∧ s'.name = stepName parent k := by
  obtain ⟨-, r, he, hentry⟩ := mem_successors_iff.mp hxy
  obtain ⟨n, m, hn, hm, hjoins⟩ := h.sorted _ he
  obtain rfl : m = .step s := Option.some.inj (hm.symm.trans hs)
  cases r with
  | contains =>
    have hindex : s.index = i := (hnamed s (List.mem_of_getElem? hs)).index_eq hname
    refine Or.inl ⟨?_, he⟩
    simpa [isEntry, hs, hindex] using hentry
  | next =>
    obtain ⟨q, k, hx, hy⟩ := h.follows _ _ ⟨x, y, h.keyed.number? hn, h.keyed.number? hs, he⟩
    have hplace : stepName parent i = stepName q (k + 1) := by
      rw [← hname]
      exact congrArg Key.name hy
    obtain ⟨rfl, rfl⟩ := stepName_inj.mp hplace
    cases n with
    | step s' => exact Or.inr ⟨k, s', rfl, hn, congrArg Key.name hx⟩
    | repo _ | workflow _ | job _ | action _ => cases congrArg Key.kind hx
  | needs | uses => cases n <;> cases hjoins

/-- A way that does not begin with a step comes to a step past its parent and all steps before. -/
lemma IsOrdered.exists_run (h : g.IsOrdered) (hnamed : ∀ s, .step s ∈ g.nodes → s.IsNamed)
    {parent : String} {front : List Nat} {start : Nat}
    (hchain : (front ++ [y]).IsChain fun a b => b ∈ g.successors a)
    (hbegins : (front ++ [y]).head? = some start) (hstart : ∀ s, g.nodes[start]? ≠ some (.step s))
    (hs : g.nodes[y]? = some (.step s)) (hname : s.name = stepName parent i) :
    ∃ before x run, front ++ [y] = before ++ x :: run ∧
      run.map some = (List.range (i + 1)).map (fun k => g.number? (stepKey parent k)) ∧
      ∃ z ∈ run.head?, ⟨x, z, .contains⟩ ∈ g.edges := by
  -- The induction is on the way from its end: the step before comes at the end of a shorter one.
  induction front using List.reverseRecOn generalizing y s i with
  | nil =>
    obtain rfl := Option.some.inj hbegins
    exact absurd hs (hstart s)
  | append_singleton front x ih =>
    have hnumber : g.number? (stepKey parent i) = some y := by
      rw [stepKey, ← hname]
      exact h.keyed.number? hs
    have hxy : y ∈ g.successors x := by
      rw [List.append_assoc] at hchain
      exact (List.isChain_cons_cons.mp hchain.right_of_append).1
    have hbegins : (front ++ [x]).head? = some start := by
      rwa [List.head?_append_of_ne_nil _ (List.concat_ne_nil x front)] at hbegins
    rcases h.entered hnamed hs hname hxy with ⟨rfl, he⟩ | ⟨k, s', rfl, hs', hname'⟩
    · exact ⟨front, x, [y], by simp, by simp [hnumber], y, rfl, he⟩
    · obtain ⟨before, x', run, hsplit, hrun, z, hz, he⟩ := ih hchain.left_of_append hbegins hs' hname'
      refine ⟨before, x', run ++ [y], by rw [hsplit]; simp, ?_, z, ?_, he⟩
      · rw [List.range_succ, List.map_append, List.map_append, hrun, List.map_singleton,
          List.map_singleton, hnumber]
      · rw [Option.mem_def, List.head?_append, Option.mem_def.mp hz, Option.some_or]

lemma IsOrdered.key_of_isStepOf (h : g.IsOrdered) (hnamed : ∀ s, .step s ∈ g.nodes → s.IsNamed)
    (hn : g.nodes[x]? = some n) (hy : g.IsStepOf x i y) :
    ∃ s, g.nodes[y]? = some (.step s) ∧ (Node.step s).key = stepKey n.key.stepsName i := by
  obtain ⟨he, s, hs, rfl⟩ := hy
  obtain ⟨k, hk, -⟩ := h.contained _ _ ⟨x, y, h.keyed.number? hn, h.keyed.number? hs, he⟩ rfl
  have hindex : s.index = k :=
    (hnamed s (List.mem_of_getElem? hs)).index_eq (congrArg Key.name hk)
  exact ⟨s, hs, hindex ▸ hk⟩

/-- A parent that has a step has all steps before it, and these are the steps of their places. -/
lemma IsOrdered.isStepOf_iff (h : g.IsOrdered) (hnamed : ∀ s, .step s ∈ g.nodes → s.IsNamed)
    (hn : g.nodes[x]? = some n) (hy : g.IsStepOf x i y) (hk : k ≤ i) :
    g.IsStepOf x k z ↔ g.number? (stepKey n.key.stepsName k) = some z := by
  constructor
  · intro hz
    obtain ⟨s, hs, hkey⟩ := h.key_of_isStepOf hnamed hn hz
    rw [← hkey]
    exact h.keyed.number? hs
  · intro hz
    obtain ⟨s, hs, hkey⟩ := h.key_of_isStepOf hnamed hn hy
    have hl : g.Links n.key (stepKey n.key.stepsName i) .contains :=
      ⟨x, y, h.keyed.number? hn, hkey ▸ h.keyed.number? hs, hy.1⟩
    have hlk : g.Links n.key (stepKey n.key.stepsName k) .contains := by
      rcases hk.eq_or_lt with rfl | hlt
      · exact hl
      · obtain ⟨i', hi', hbefore⟩ := h.contained _ _ hl rfl
        obtain ⟨-, rfl⟩ := stepKey_inj.mp hi'
        exact hbefore k hlt
    obtain ⟨x', z', hx', hz', he⟩ := hlk
    obtain rfl : x' = x := Option.some.inj (hx'.symm.trans (h.keyed.number? hn))
    obtain rfl : z' = z := Option.some.inj (hz'.symm.trans hz)
    obtain ⟨m, hm, hmkey⟩ := exists_of_number? hz
    cases m with
    | step s' =>
      exact ⟨he, s', hm, (hnamed s' (List.mem_of_getElem? hm)).index_eq (congrArg Key.name hmkey)⟩
    | repo _ | workflow _ | job _ | action _ => cases congrArg Key.kind hmkey

lemma IsOrdered.exists_run_of_isStepOf (h : g.IsOrdered)
    (hnamed : ∀ s, .step s ∈ g.nodes → s.IsNamed) {start : Nat} {p : List Nat}
    (hchain : p.IsChain fun a b => b ∈ g.successors a) (hbegins : p.head? = some start)
    (hstart : ∀ s, g.nodes[start]? ≠ some (.step s)) (hy : g.IsStepOf x i y) (hmem : y ∈ p) :
    ∃ before x' run after, p = before ++ x' :: run ++ after ∧ run.length = i + 1 ∧
      (∀ k z, run[k]? = some z ↔ k ≤ i ∧ g.IsStepOf x k z) ∧
      ∃ z ∈ run.head?, ⟨x', z, .contains⟩ ∈ g.edges := by
  obtain ⟨n, -, hn, -, -⟩ := h.sorted _ hy.1
  obtain ⟨s, hs, hkey⟩ := h.key_of_isStepOf hnamed hn hy
  obtain ⟨front, after, rfl⟩ := List.append_of_mem hmem
  have hsplit : front ++ y :: after = (front ++ [y]) ++ after := by simp
  rw [hsplit] at hchain hbegins
  rw [List.head?_append_of_ne_nil _ (List.concat_ne_nil y front)] at hbegins
  obtain ⟨before, x', run, hrun, hnumbers, hfirst⟩ :=
    h.exists_run hnamed hchain.left_of_append hbegins hstart hs (congrArg Key.name hkey)
  have hlength : run.length = i + 1 := by simpa using congrArg List.length hnumbers
  refine ⟨before, x', run, after, by rw [hsplit, hrun], hlength, fun k z => ?_, hfirst⟩
  by_cases hk : k ≤ i
  · have hnumber : run[k]?.map some = some (g.number? (stepKey n.key.stepsName k)) := by
      rw [← List.getElem?_map, hnumbers, List.getElem?_map, List.getElem?_range (by omega),
        Option.map_some]
    rw [and_iff_right hk, h.isStepOf_iff hnamed hn hy hk]
    cases hz : run[k]? with
    | none => simp [hz] at hnumber
    | some z' =>
      rw [hz, Option.map_some, Option.some.injEq] at hnumber
      rw [← hnumber]
  · have hnone : run[k]? = none := List.getElem?_eq_none (by omega)
    simp [hnone, hk]

end Graph

namespace IndexedGraph

open WorkflowAudit.Graph (Node Workflow workflowNode)

/-- A path from a workflow comes to a step of a job or an action through all steps before it, in
order and in one go, from a node that contains the first of them. Behind a hard gate no later step
is found. -/
theorem earlier_steps_passed {os : List Operation}
    (hos : ∀ o ∈ os, o.isConnect = false ∧ o.IsNumbered) {start : Nat} {w : Workflow}
    {tag : String} {p : List Nat} (hstart : (ofOperations os).nodes[start]? = some (.workflow w))
    (hp : p ∈ (ofOperations os).paths start tag) :
    let g := (ofOperations os).toGraph
    (∀ x i y, g.IsStepOf x i y → y ∈ p →
      ∃ before x' run after, p = before ++ x' :: run ++ after ∧ run.length = i + 1 ∧
        (∀ k z, run[k]? = some z ↔ k ≤ i ∧ g.IsStepOf x k z) ∧
        ∃ z ∈ run.head?, ⟨x', z, .contains⟩ ∈ g.edges) ∧
      ∀ x i y, g.IsStepOf x i y → y ∈ p.getLast? →
        ∀ k < i, ∀ z, g.IsStepOf x k z → ¬ g.IsHardGate z := by
  intro g
  have h : g.IsOrdered := Graph.isOrdered_ofOperations hos
  have hnamed := Graph.isNamed_of_mem_nodes fun o ho => (hos o ho).2
  have hpath := Graph.mem_paths_iff.mp hp
  have hno (s : Graph.Step) : g.nodes[start]? ≠ some (.step s) := by
    rw [hstart]
    simp
  have hrun {x i y : Nat} (hy : g.IsStepOf x i y) (hmem : y ∈ p) :=
    h.exists_run_of_isStepOf hnamed hpath.consecutive hpath.begins hno hy hmem
  refine ⟨fun x i y => hrun, fun x i y hy hlast k hk z hz => ?_⟩
  obtain ⟨before, x', run, after, hsplit, -, hplaces, -⟩ := hrun hy (List.mem_of_mem_getLast? hlast)
  have hmem : z ∈ p := by
    have hz : z ∈ run := List.mem_of_getElem? ((hplaces k z).mpr ⟨hk.le, hz⟩)
    rw [hsplit]
    simp [hz]
  -- The step at the end has another place, so that the gate stands before the end.
  have hne : z ≠ y := by
    rintro rfl
    obtain ⟨⟨-, s, hs, rfl⟩, -, s', hs', rfl⟩ := And.intro hy hz
    obtain rfl := Node.step.inj (Option.some.inj (hs.symm.trans hs'))
    exact lt_irrefl _ hk
  apply hpath.noHardGate
  have hend : p = p.dropLast ++ [y] := (List.dropLast_append_getLast? y hlast).symm
  rw [hend] at hmem
  simpa [hne] using hmem

/-- A workflow that hands its second step to an action of its own. -/
def settingUp : Document :=
  Document.parse
    "on: push\njobs:\n  build:\n    steps:\n    - run: make\n    - uses: ./setup\n" "o/r" "HEAD"
    "ci.yml"

def setup : Document :=
  Document.parse "runs:\n  using: composite\n  steps:\n  - run: fetch\n  - run: build\n" "o/r" "HEAD"
    "setup"

/-- The action comes in as node 5. -/
def setupOperations : List Operation :=
  [.addWorkflow .default settingUp, .addAction .default setup 5]

theorem setup_steps_passed :
    let x := ofOperations setupOperations
    let p := [1, 2, 3, 4, 5, 6, 7]
    (∀ o ∈ setupOperations, o.isConnect = false ∧ o.IsNumbered) ∧
      x.nodes[1]? = some (workflowNode settingUp) ∧ p ∈ x.paths 1 "StepNode" ∧
      x.IsStepOf 5 1 7 ∧ x.IsStepOf 5 0 6 ∧
      (∃ before x' run after, p = before ++ x' :: run ++ after ∧ run.length = 2 ∧
        (∀ k z, run[k]? = some z ↔ k ≤ 1 ∧ x.IsStepOf 5 k z) ∧
        ∃ z ∈ run.head?, ⟨x', z, .contains⟩ ∈ x.edges) ∧ ¬ x.IsHardGate 6 := by
  have hos : ∀ o ∈ setupOperations, o.isConnect = false ∧ o.IsNumbered := by
    intro o ho
    rcases List.mem_pair.mp ho with rfl | rfl
    · exact ⟨rfl, Document.isNumbered_parse _ _ _ _⟩
    · exact ⟨rfl, Document.isNumbered_parse _ _ _ _⟩
  obtain ⟨hstart, hp, hlast, hfirst⟩ :
      (ofOperations setupOperations).nodes[1]? = some (workflowNode settingUp) ∧
        [1, 2, 3, 4, 5, 6, 7] ∈ (ofOperations setupOperations).paths 1 "StepNode" ∧
        (ofOperations setupOperations).IsStepOf 5 1 7 ∧
        (ofOperations setupOperations).IsStepOf 5 0 6 := by
    rw [(represents_ofOperations _).graph]
    decide +kernel
  obtain ⟨hruns, hgates⟩ := earlier_steps_passed hos hstart hp
  exact ⟨hos, hstart, hp, hlast, hfirst, hruns 5 1 7 hlast (by simp),
    hgates 5 1 7 hlast rfl 0 one_pos 6 hfirst⟩

end IndexedGraph

end WorkflowAudit
