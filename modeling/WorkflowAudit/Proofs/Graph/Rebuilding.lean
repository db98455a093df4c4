import WorkflowAudit.Proofs.Graph.DocumentFacts
import WorkflowAudit.Proofs.Graph.Operations

/-! What a graph states already changes nothing when it is added again, and a graph states all of a
document that has come in once. -/

namespace WorkflowAudit

namespace Graph

variable {g g' : Graph} {n : Node} {fact : Fact} {facts : List Fact} {known : List Key}

/-- The graph says what a fact says: there is the edge, or a node of the key that has been read if
the one of the fact has. -/
def Holds (g : Graph) : Fact → Prop
  | .node n => ∃ (i : Nat) (m : Node), g.nodes[i]? = some m ∧ m.key = n.key ∧
      (n.isInitialized = true → m.isInitialized = true)
  | .edge a b r => g.Links a b r

lemma Node.Follows.isInitialized {new old : Node} (h : new.Follows old)
    (hold : old.isInitialized = true) : new.isInitialized = true := by
  rw [h.eq hold, hold]

lemma Holds.of_grows (h : g.Holds fact) (hg : g.Grows g') (hk : g'.IsKeyed) : g'.Holds fact := by
  cases fact with
  | node n =>
    obtain ⟨i, m, hm, hkey, hread⟩ := h
    obtain ⟨m', hm', hf⟩ := hg.nodes i m hm
    exact ⟨i, m', hm', hf.key.trans hkey, fun hn => hf.isInitialized (hread hn)⟩
  | edge a b r => exact hg.links hk h

lemma holds_insert (g : Graph) (n : Node) : (g.insert n).Holds (.node n) := by
  rw [insert]
  split
  · next i hi =>
    obtain ⟨m, hm, hkey⟩ := exists_of_number? hi
    refine ⟨i, settle m n, by simp [hm], (Node.follows_settle hkey).key.trans hkey, fun hn => ?_⟩
    rw [settle]
    split
    · exact hn
    · next hc => simpa [hn] using hc
  · exact ⟨g.nodes.length, n, by simp, rfl, id⟩

lemma holds_addAll (hk : g.IsKeyed) (h : IsGrounded known facts)
    (hknown : ∀ key ∈ known, (g.number? key).isSome = true) (hf : fact ∈ facts) :
    (g.addAll facts).Holds fact := by
  cases fact with
  | node n =>
    -- The node holds when its turn has come, and later facts take nothing away.
    obtain ⟨before, after, rfl⟩ := List.append_of_mem hf
    have hstated : ((g.addAll before).insert n).Holds (.node n) := holds_insert _ n
    have hgrows := grows_addAll ((g.addAll before).insert n) after
    rw [addAll, List.foldl_append, List.foldl_cons]
    refine hstated.of_grows hgrows (hgrows.keyed ?_)
    exact (grows_insert _ n).keyed ((grows_addAll g before).keyed hk)
  | edge a b r => exact links_addAll hk h hknown hf

lemma holds_addWorkflow {t : Classification.Tables} {d : Document} (hk : g.IsKeyed)
    (hf : fact ∈ workflowFacts t d) : (g.addWorkflow t d).Holds fact :=
  holds_addAll hk (isGrounded_workflowFacts (isValid_of_mem_workflowFacts hf)) (by simp) hf

end Graph

namespace IndexedGraph

open WorkflowAudit.Graph (Fact Node workflowFacts workflowNode)

variable {x : IndexedGraph} {fact : Fact} {facts : List Fact}

lemma add_eq_self (h : x.IsIndexed) (hb : x.Holds fact) : x.add fact = x := by
  cases fact with
  | node n =>
    obtain ⟨i, m, hm, hkey, hread⟩ := hb
    have hi : x.number? n.key = some i := h.number?_eq_some_iff.mpr ⟨m, hm, hkey⟩
    rw [add, insert, hi]
    dsimp only
    rw [hm, Option.any_some, if_neg]
    rintro hc
    rw [Bool.and_eq_true, Bool.not_eq_true'] at hc
    exact absurd (hread hc.2) (by simp [hc.1])
  | edge a b r =>
    obtain ⟨i, j, ha, hb, he⟩ := hb
    rw [add, h.number?_eq, h.number?_eq, ha, hb]
    dsimp only
    rw [connect, Graph.connect, if_pos (List.contains_iff_mem.mpr he)]

lemma addAll_eq_self (h : x.IsIndexed) (hb : ∀ fact ∈ facts, x.Holds fact) :
    x.addAll facts = x := by
  induction facts with
  | nil => rfl
  | cons fact rest ih =>
    rw [addAll, List.foldl_cons, add_eq_self h (hb fact (by simp))]
    exact ih fun f hf => hb f (List.mem_cons_of_mem _ hf)

/-- A document that comes in a second time, right after the first time, changes neither nodes nor
edges nor indexes, and leads to the same node. One that cannot be read changes nothing at all. -/
theorem addWorkflow_twice (os : List Operation) (t : Classification.Tables) (d : Document) :
    let x := ofOperations os
    let once := x.addWorkflow t d
    let twice := once.addWorkflow t d
    twice = once ∧ twice.workflowNumber? d = once.workflowNumber? d ∧
      (d.isValid = true → ∃ (i : Nat) (n : Node), once.workflowNumber? d = some i ∧
        once.nodes[i]? = some n ∧ n.key = (workflowNode d).key ∧ n.isInitialized = true) ∧
      (d.isValid = false → once = x ∧ once.workflowNumber? d = none) := by
  intro x once twice
  have hx := represents_ofOperations os
  have honce := hx.addWorkflow t d
  have hholds : ∀ fact ∈ workflowFacts t d, once.Holds fact := by
    intro fact hf
    rw [honce.graph]
    exact Graph.holds_addWorkflow (hx.graph ▸ hx.indexed.keyed) hf
  have heq : twice = once := addAll_eq_self honce.indexed hholds
  refine ⟨heq, by rw [heq], fun hv => ?_, fun hv => ⟨?_, ?_⟩⟩
  · obtain ⟨i, n, hn, hkey, hread⟩ := hholds _ (Graph.workflowNode_mem_workflowFacts hv)
    refine ⟨i, n, ?_, hn, hkey, hread rfl⟩
    rw [workflowNumber?, if_pos hv]
    exact honce.indexed.number?_eq_some_iff.mpr ⟨n, hn, hkey⟩
  · simp [once, addWorkflow, workflowFacts, hv, addAll]
  · simp [workflowNumber?, hv]

end IndexedGraph

end WorkflowAudit
