import WorkflowAudit.Proofs.Graph.DocumentFacts
import WorkflowAudit.Proofs.Graph.Operations

/-! What operations add to a graph: all that a document states, in one go. What a graph keeps while
facts come in and nodes are marked as read, it keeps at all times. -/

namespace WorkflowAudit

namespace Graph

open Source (Knowledge)

/-- The facts that come in with an operation, those of each document on their own. -/
inductive Brings (g : Graph) : Operation → List Fact → Prop
  | node (n : Node) : Brings g (.insert n) [.node n]
  | workflow (t : Classification.Tables) (d : Document) :
    Brings g (.addWorkflow t d) (workflowFacts t d)
  | action {i : Nat} {a : Action} (t : Classification.Tables) (d : Document) :
    g.nodes[i]? = some (.action a) → Brings g (.addAction t d i) (actionFacts t a d)
  | resolvedWorkflow {k : Knowledge} {t : Classification.Tables} {entries : List Nat} {i : Nat}
    {w : Workflow} {d : Document} : g.nodes[i]? = some (.workflow w) →
    k.workflow (.of w.repo w.ref w.path) = some d →
    Brings g (.resolve k t entries) (workflowFacts t d)
  | resolvedAction {k : Knowledge} {t : Classification.Tables} {entries : List Nat} {i : Nat}
    {a : Action} {d : Document} : g.nodes[i]? = some (.action a) →
    k.action (.of a.repo a.ref a.path) = some d → Brings g (.resolve k t entries) (actionFacts t a d)

variable {g : Graph} {o : Operation} {facts : List Fact} {P : Graph → Prop} {k : Knowledge}
  {t : Classification.Tables} {entries : List Nat} {a b : Key} {r : Relation}

lemma isGrounded_actionFacts (t : Classification.Tables) (action : Action) (d : Document) :
    IsGrounded [(Node.action action).key] (actionFacts t action d) := by
  rw [actionFacts]
  split
  · exact .flatMap fun j _ => isGrounded_stepFacts (List.mem_singleton_self _) (by simp)
  · trivial

/-- An edge comes in with its ends, or between nodes that are there. -/
lemma Brings.isGrounded (h : g.Brings o facts) :
    ∃ known, IsGrounded known facts ∧ ∀ key ∈ known, (g.number? key).isSome = true := by
  have hworkflow (t : Classification.Tables) (d : Document) :
      ∃ known, IsGrounded known (workflowFacts t d) ∧
        ∀ key ∈ known, (g.number? key).isSome = true := by
    refine ⟨[], ?_, by simp⟩
    cases hv : d.isValid with
    | true => exact isGrounded_workflowFacts hv
    | false => simp [workflowFacts, hv, IsGrounded]
  have haction {i : Nat} {action : Action} (t : Classification.Tables) (d : Document)
      (hi : g.nodes[i]? = some (.action action)) :
      ∃ known, IsGrounded known (actionFacts t action d) ∧
        ∀ key ∈ known, (g.number? key).isSome = true := by
    refine ⟨_, isGrounded_actionFacts t action d, fun key hkey => ?_⟩
    obtain rfl := List.mem_singleton.mp hkey
    exact isSome_number?_iff.mpr ⟨_, List.mem_of_getElem? hi, rfl⟩
  cases h with
  | node n => exact ⟨[], trivial, by simp⟩
  | workflow t d => exact hworkflow t d
  | action t d hi => exact haction t d hi
  | resolvedWorkflow _ _ => exact hworkflow _ _
  | resolvedAction hi _ => exact haction _ _ hi

lemma Brings.links (h : g.Brings o facts) (hk : g.IsKeyed) (he : .edge a b r ∈ facts) :
    (g.addAll facts).Links a b r := by
  obtain ⟨known, hgrounded, hknown⟩ := h.isGrounded
  exact links_addAll hk hgrounded hknown he

lemma resolveNode_induction (hk : g.IsKeyed) (h : P g)
    (hmark : ∀ (g : Graph) (i : Nat), P g → P (g.markInitialized i))
    (hadd : ∀ (g : Graph) (facts : List Fact), g.IsKeyed → P g →
      g.Brings (.resolve k t entries) facts → P (g.addAll facts)) (i : Nat) :
    P (Audit.resolveNode k t g i) := by
  rw [Audit.resolveNode, IndexedGraph.markInitialized_addReference]
  apply hmark
  have hnil : P (g.addAll []) := h
  cases hi : g.nodes[i]? with
  | none => exact hnil
  | some n =>
    rw [Option.map_some, Option.getD_some]
    cases n with
    | workflow w =>
      rw [IndexedGraph.referenceFacts]
      cases hw : k.workflow (.of w.repo w.ref w.path) with
      | none => exact hnil
      | some d => exact hadd g _ hk h (.resolvedWorkflow hi hw)
    | action action =>
      rw [IndexedGraph.referenceFacts]
      cases ha : (k.action (.of action.repo action.ref action.path)).filter (·.isValid) with
      | none => exact hnil
      | some d =>
        exact hadd g _ hk h (.resolvedAction hi (Option.eq_some_of_filter_eq_some ha))
    | repo _ | job _ | step _ => exact hnil

lemma resolveRounds_induction (hk : g.IsKeyed) (h : P g)
    (hmark : ∀ (g : Graph) (i : Nat), P g → P (g.markInitialized i))
    (hadd : ∀ (g : Graph) (facts : List Fact), g.IsKeyed → P g →
      g.Brings (.resolve k t entries) facts → P (g.addAll facts)) (rounds : Nat) :
    P (Audit.resolveRounds k t entries rounds g) := by
  induction rounds generalizing g with
  | zero => exact h
  | succ rounds ih =>
    have hround (is : List Nat) : (is.foldl (Audit.resolveNode k t) g).IsKeyed ∧
        P (is.foldl (Audit.resolveNode k t) g) :=
      List.foldlRecOn (motive := fun g : Graph => g.IsKeyed ∧ P g) is _ ⟨hk, h⟩ fun g hg i _ =>
        ⟨(Audit.grows_resolveNode k t g i).keyed hg.1,
          resolveNode_induction hg.1 hg.2 hmark hadd i⟩
    exact ih (hround _).1 (hround _).2

/-- What marks, edges on their own and the facts of documents leave as it is, an operation does. -/
lemma perform_induction (hk : g.IsKeyed) (h : P g)
    (hmark : ∀ (g : Graph) (i : Nat), P g → P (g.markInitialized i))
    (hconnect : ∀ (g : Graph) (i j : Nat) (r : Relation), o = .connect i j r → P g →
      P (g.connect i j r))
    (hadd : ∀ (g : Graph) (facts : List Fact), g.IsKeyed → P g → g.Brings o facts →
      P (g.addAll facts)) : P (g.perform o) := by
  cases o with
  | insert n => exact hadd g _ hk h (.node n)
  | markInitialized i => exact hmark g i h
  | connect i j r => exact hconnect g i j r rfl h
  | addWorkflow t d => exact hadd g _ hk h (.workflow t d)
  | addAction t d i =>
    rw [perform, addAction]
    split
    · next a hi => exact hmark _ i (hadd g _ hk h (.action t d hi))
    · exact h
  | resolve k t entries => exact resolveRounds_induction hk h hmark hadd _

lemma foldl_perform_induction {os : List Operation} (hempty : P empty)
    (hmark : ∀ (g : Graph) (i : Nat), P g → P (g.markInitialized i))
    (hconnect : ∀ (g : Graph) (i j : Nat) (r : Relation), .connect i j r ∈ os → P g →
      P (g.connect i j r))
    (hadd : ∀ (g : Graph) (facts : List Fact), ∀ o ∈ os, g.IsKeyed → P g → g.Brings o facts →
      P (g.addAll facts)) : P (IndexedGraph.ofOperations os).toGraph := by
  rw [(IndexedGraph.represents_ofOperations os).graph]
  refine (List.foldlRecOn (motive := fun g : Graph => g.IsKeyed ∧ P g) os _ ⟨isKeyed_empty, hempty⟩
    fun g hg o ho => ⟨(grows_perform g o).keyed hg.1, ?_⟩).2
  apply perform_induction hg.1 hg.2 hmark
  · rintro g i j r rfl
    exact hconnect g i j r ho
  · exact fun g facts => hadd g facts o ho

/-- Where edges stand between nodes only, no facts bring in an edge that none of them states. -/
lemma links_of_links_addAll (hk : g.IsKeyed)
    (hends : ∀ e ∈ g.edges, e.source < g.nodes.length ∧ e.target < g.nodes.length)
    (h : (g.addAll facts).Links a b r) : g.Links a b r ∨ .edge a b r ∈ facts := by
  obtain ⟨i, j, hi, hj, he⟩ := h
  rcases mem_edges_addAll hk he with he | ⟨a', b', he, hi', hj'⟩
  · have hold {key : Key} {i : Nat} (hi : (g.addAll facts).number? key = some i)
        (hlt : i < g.nodes.length) : g.number? key = some i := by
      have hn : g.nodes[i]? = some g.nodes[i] := List.getElem?_eq_getElem hlt
      obtain ⟨n', hn', hf⟩ := (grows_addAll g facts).nodes i _ hn
      rw [eq_key_of_number? hi hn', hf.key]
      exact hk.number? hn
    obtain ⟨hsource, htarget⟩ := hends _ he
    exact Or.inl ⟨i, j, hold hi hsource, hold hj htarget, he⟩
  · obtain ⟨n, hn, rfl⟩ := exists_of_number? hi
    obtain ⟨m, hm, rfl⟩ := exists_of_number? hj
    obtain rfl := eq_key_of_number? hi' hn
    obtain rfl := eq_key_of_number? hj' hm
    exact Or.inr he

end Graph

end WorkflowAudit
