import WorkflowAudit.Proofs.Graph.Additions
import WorkflowAudit.Proofs.Graph.DocumentPaths

/-! The kinds of nodes that an edge stands between, in a graph all of whose edges come from
documents. Below a step there are only steps and actions, so that no path comes back to a job. -/

namespace WorkflowAudit

/-- An edge is put in by itself, and not with a document. -/
def Operation.isConnect : Operation → Bool
  | .connect _ _ _ => true
  | _ => false

namespace Graph

/-- The kinds of nodes that a relation is for. -/
def Relation.joins : Relation → Kind → Kind → Bool
  | .contains, .repo, .workflow => true
  | .contains, .workflow, .job => true
  | .contains, .job, .step => true
  | .contains, .action, .step => true
  | .needs, .job, .job => true
  | .uses, .job, .workflow => true
  | .uses, .step, .action => true
  | .next, .step, .step => true
  | _, _, _ => false

/-- An edge stands between nodes of the kinds that its relation is for. -/
def IsSorted (g : Graph) (e : Edge) : Prop :=
  ∃ n m : Node, g.nodes[e.source]? = some n ∧ g.nodes[e.target]? = some m ∧
    e.relation.joins n.kind m.kind = true

def AreSorted (facts : List Fact) : Prop :=
  ∀ a b r, .edge a b r ∈ facts → r.joins a.kind b.kind = true

variable {g g' : Graph} {facts facts' : List Fact} {t : Classification.Tables} {d : Document}
  {n m : Node} {x y : Nat} {e : Edge}

lemma areSorted_nil : AreSorted [] := fun _ _ _ hmem => absurd hmem List.not_mem_nil

lemma areSorted_node (n : Node) : AreSorted [.node n] :=
  fun _ _ _ hmem => Fact.noConfusion (List.mem_singleton.mp hmem)

lemma areSorted_edge {a b : Key} {r : Relation} (h : r.joins a.kind b.kind = true) :
    AreSorted [.edge a b r] := by
  intro a' b' r' hmem
  obtain ⟨rfl, rfl, rfl⟩ := Fact.edge.inj (List.mem_singleton.mp hmem)
  exact h

lemma AreSorted.append (h : AreSorted facts) (h' : AreSorted facts') :
    AreSorted (facts ++ facts') :=
  fun a b r hmem => (List.mem_append.mp hmem).elim (h a b r) (h' a b r)

lemma AreSorted.flatMap {α : Type} {xs : List α} {f : α → List Fact}
    (h : ∀ x ∈ xs, AreSorted (f x)) : AreSorted (xs.flatMap f) := by
  intro a b r hmem
  obtain ⟨x, hx, hmem⟩ := List.mem_flatMap.mp hmem
  exact h x hx a b r hmem

lemma areSorted_usedFacts {user : Key} {used : Option Node}
    (h : ∀ m ∈ used, Relation.uses.joins user.kind m.kind = true) :
    AreSorted (usedFacts user used) := by
  cases used with
  | none => exact areSorted_nil
  | some m => exact (areSorted_node m).append (areSorted_edge (h m rfl))

lemma areSorted_stepFacts {parent : Parent}
    (hparent : Relation.contains.joins parent.key.kind .step = true) {previous : Option Key}
    (hprevious : ∀ key ∈ previous, key.kind = .step) (steps : List Document.Step) :
    AreSorted (stepFacts t parent previous steps) := by
  induction steps generalizing previous with
  | nil => exact areSorted_nil
  | cons s rest ih =>
    have hown : AreSorted [.node (stepNode t parent s),
        .edge parent.key (stepNode t parent s).key .contains] :=
      (areSorted_node _).append (areSorted_edge hparent)
    have hfollow : AreSorted (followFacts (stepNode t parent s).key previous) := by
      cases previous with
      | none => exact areSorted_nil
      | some key =>
        refine areSorted_edge ?_
        rw [hprevious key rfl]
        rfl
    have hused (action : Option Action) :
        AreSorted (usedFacts (stepNode t parent s).key (action.map .action)) := by
      refine areSorted_usedFacts fun m hm => ?_
      obtain ⟨a, -, rfl⟩ := Option.map_eq_some_iff.mp hm
      rfl
    refine ((hown.append hfollow).append (hused _)).append (ih ?_)
    rintro _ ⟨rfl⟩
    rfl

lemma areSorted_jobFacts (t : Classification.Tables) (d : Document) (j : Document.Job) :
    AreSorted (jobFacts t d j) := by
  have hneeds : AreSorted ((knownNeeds d j).map fun need =>
      .edge ⟨.job, jobName (workflowNode d).name need⟩ (jobNode d j).key .needs) := by
    intro a b r hmem
    obtain ⟨need, -, hedge⟩ := List.mem_map.mp hmem
    obtain ⟨rfl, rfl, rfl⟩ := Fact.edge.inj hedge
    rfl
  have hfirst : AreSorted (if (knownNeeds d j).isEmpty then
      [.edge (workflowNode d).key (jobNode d j).key .contains] else []) := by
    split
    · exact areSorted_edge rfl
    · exact areSorted_nil
  have hused : AreSorted (usedFacts (jobNode d j).key
      ((j.uses.bind (calledWorkflow d)).map .workflow)) := by
    refine areSorted_usedFacts fun m hm => ?_
    obtain ⟨w, -, rfl⟩ := Option.map_eq_some_iff.mp hm
    rfl
  exact ((hneeds.append hfirst).append hused).append (areSorted_stepFacts rfl (by simp) _)

lemma areSorted_workflowFacts (t : Classification.Tables) (d : Document) :
    AreSorted (workflowFacts t d) := by
  cases hv : d.isValid with
  | false => simpa [workflowFacts, hv] using areSorted_nil
  | true =>
    have hjobs : AreSorted (d.jobs.map fun j => .node (jobNode d j)) := by
      intro a b r hmem
      obtain ⟨j, -, hnode⟩ := List.mem_map.mp hmem
      cases hnode
    have hrepo : AreSorted [.node (.repo d.repo), .node (workflowNode d),
        .edge (Node.repo d.repo).key (workflowNode d).key .contains] :=
      ((areSorted_node _).append (areSorted_node _)).append (areSorted_edge rfl)
    rw [workflowFacts_eq hv, heading]
    exact (hrepo.append hjobs).append (.flatMap fun j _ => areSorted_jobFacts t d j)

lemma areSorted_actionFacts (t : Classification.Tables) (a : Action) (d : Document) :
    AreSorted (actionFacts t a d) := by
  rw [actionFacts]
  split
  · exact .flatMap fun j _ => areSorted_stepFacts rfl (by simp) _
  · exact areSorted_nil

lemma Brings.areSorted {o : Operation} (h : g.Brings o facts) : AreSorted facts := by
  cases h with
  | node n => exact areSorted_node n
  | workflow t d => exact areSorted_workflowFacts t d
  | action t d _ => exact areSorted_actionFacts t _ d
  | resolvedWorkflow _ _ => exact areSorted_workflowFacts _ _
  | resolvedAction _ _ => exact areSorted_actionFacts _ _ _

lemma Node.Follows.kind_eq (h : n.Follows m) : n.kind = m.kind := congrArg Key.kind h.key

lemma IsSorted.of_grows (h : g.IsSorted e) (hg : g.Grows g') : g'.IsSorted e := by
  obtain ⟨n, m, hn, hm, hjoins⟩ := h
  obtain ⟨n', hn', hnfollows⟩ := hg.nodes _ n hn
  obtain ⟨m', hm', hmfollows⟩ := hg.nodes _ m hm
  exact ⟨n', m', hn', hm', by rwa [hnfollows.kind_eq, hmfollows.kind_eq]⟩

lemma isSorted_addAll (hk : g.IsKeyed) (h : ∀ e ∈ g.edges, g.IsSorted e)
    (hfacts : AreSorted facts) : ∀ e ∈ (g.addAll facts).edges, (g.addAll facts).IsSorted e := by
  rintro ⟨x, y, r⟩ he
  rcases mem_edges_addAll hk he with he | ⟨a, b, hedge, ha, hb⟩
  · exact (h _ he).of_grows (grows_addAll g facts)
  · obtain ⟨n, hn, rfl⟩ := exists_of_number? ha
    obtain ⟨m, hm, rfl⟩ := exists_of_number? hb
    exact ⟨n, m, hn, hm, hfacts _ _ _ hedge⟩

lemma isSorted_markInitialized (h : ∀ e ∈ g.edges, g.IsSorted e) (i : Nat) :
    ∀ e ∈ (g.markInitialized i).edges, (g.markInitialized i).IsSorted e :=
  fun e he => (h e he).of_grows (grows_markInitialized g i)

/-- Where all edges come from documents, each stands between nodes of the kinds that its relation is
for. -/
theorem edges_sorted {os : List Operation} (hos : ∀ o ∈ os, o.isConnect = false) :
    ∀ e ∈ (IndexedGraph.ofOperations os).toGraph.edges,
      (IndexedGraph.ofOperations os).toGraph.IsSorted e := by
  apply foldl_perform_induction (P := fun g : Graph => ∀ e ∈ g.edges, g.IsSorted e)
  · simp [empty]
  · exact fun g i h => isSorted_markInitialized h i
  · exact fun g i j r hmem => absurd (hos _ hmem) (by simp [Operation.isConnect])
  · exact fun g facts o _ hk h hbrings => isSorted_addAll hk h hbrings.areSorted

/-- What stands below a job: its steps, and the actions that they use. -/
def Kind.IsBelowJobs (kind : Kind) : Prop := kind = .step ∨ kind = .action

lemma Kind.IsBelowJobs.of_joins {a b : Kind} {r : Relation} (ha : a.IsBelowJobs)
    (h : r.joins a b = true) : b.IsBelowJobs := by
  rcases ha with rfl | rfl <;> cases r <;> cases b <;> simp_all [Relation.joins, IsBelowJobs]

lemma isBelowJobs_of_mem_successors (h : ∀ e ∈ g.edges, g.IsSorted e) (hy : y ∈ g.successors x)
    (hn : g.nodes[x]? = some n) (hm : g.nodes[y]? = some m) (hbelow : n.kind.IsBelowJobs) :
    m.kind.IsBelowJobs := by
  obtain ⟨-, r, he, -⟩ := mem_successors_iff.mp hy
  obtain ⟨n', m', hn', hm', hjoins⟩ := h _ he
  obtain rfl := Option.some.inj (hn.symm.trans hn')
  obtain rfl := Option.some.inj (hm.symm.trans hm')
  exact hbelow.of_joins hjoins

/-- On its way to a job a path passes neither steps nor actions. -/
lemma not_isBelowJobs_of_chain (h : ∀ e ∈ g.edges, g.IsSorted e) {way : List Nat}
    (hchain : (way ++ [x]).IsChain fun i j => j ∈ g.successors i)
    (hx : g.nodes[x]? = some m) (hm : ¬ m.kind.IsBelowJobs) :
    ∀ i ∈ way ++ [x], ∀ n, g.nodes[i]? = some n → ¬ n.kind.IsBelowJobs := by
  induction way with
  | nil =>
    intro i hi n hn
    obtain rfl := List.mem_singleton.mp hi
    obtain rfl := Option.some.inj (hx.symm.trans hn)
    exact hm
  | cons i way ih =>
    obtain ⟨hnext, hrest⟩ := List.isChain_cons.mp hchain
    intro i' hi' n hn
    rcases List.mem_cons.mp hi' with rfl | hi'
    · obtain ⟨y, hy⟩ : ∃ y, (way ++ [x]).head? = some y :=
        ⟨_, List.head?_eq_some_head (List.concat_ne_nil x way)⟩
      obtain ⟨n', hn'⟩ : ∃ n', g.nodes[y]? = some n' :=
        ⟨_, List.getElem?_eq_getElem (mem_successors_iff.mp (hnext y hy)).1⟩
      exact fun hbelow => ih hrest y (List.mem_of_mem_head? hy) n' hn'
        (isBelowJobs_of_mem_successors h (hnext y hy) hn hn' hbelow)
    · exact ih hrest i' hi' n hn

end Graph

end WorkflowAudit
