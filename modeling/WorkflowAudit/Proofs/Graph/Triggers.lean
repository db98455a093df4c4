import WorkflowAudit.Proofs.Graph.DocumentPaths

/-! Two graphs that differ in the triggers of one workflow. The search sees the triggers only at the
start of a path, and there only whether labeling is among them. -/

namespace WorkflowAudit.Graph

open Progress

def Node.withTriggers (triggers : List String) : Node → Node
  | .workflow w => .workflow { w with triggers := triggers }
  | n => n

/-- The graph with other triggers in the workflow of a number. -/
def withTriggers (i : Nat) (triggers : List String) (g : Graph) : Graph :=
  { g with nodes := g.nodes.modify i (Node.withTriggers triggers) }

/-- The graphs agree but for the triggers of a workflow. -/
structure AgreesBut (g : Graph) (i : Nat) (g' : Graph) : Prop where
  edges : g'.edges = g.edges
  length : g'.nodes.length = g.nodes.length
  others : ∀ j, j ≠ i → g'.nodes[j]? = g.nodes[j]?
  entry : ∃ (w : Workflow) (triggers : List String), g.nodes[i]? = some (.workflow w) ∧
    g'.nodes[i]? = some (.workflow { w with triggers := triggers })

variable {g g' : Graph} {i j x y : Nat} {n : Node} {w : Workflow} {s : Step} {tag : String}
  {triggers : List String} {p : List Nat} {start : Nat}

lemma getElem?_withTriggers (hi : g.nodes[i]? = some (.workflow w)) (triggers : List String) :
    (g.withTriggers i triggers).nodes[i]? = some (.workflow { w with triggers := triggers }) := by
  rw [withTriggers, List.getElem?_modify, hi]
  simp [Node.withTriggers]

lemma agreesBut_withTriggers (hi : g.nodes[i]? = some (.workflow w)) (triggers : List String) :
    g.AgreesBut i (g.withTriggers i triggers) where
  edges := rfl
  length := List.length_modify _ _ _
  others j hj := by simp [withTriggers, hj.symm]
  entry := ⟨w, triggers, hi, getElem?_withTriggers hi triggers⟩

namespace AgreesBut

lemma symm (h : g.AgreesBut i g') : g'.AgreesBut i g where
  edges := h.edges.symm
  length := h.length.symm
  others j hj := (h.others j hj).symm
  entry := by
    obtain ⟨w, triggers, hw, hw'⟩ := h.entry
    exact ⟨_, w.triggers, hw', hw⟩

/-- What triggers have no part in holds of a node in both graphs. -/
lemma exists_iff (h : g.AgreesBut i g') {P : Node → Prop}
    (hP : ∀ (w : Workflow) (triggers : List String),
      P (.workflow { w with triggers := triggers }) ↔ P (.workflow w)) (j : Nat) :
    (∃ n, g'.nodes[j]? = some n ∧ P n) ↔ ∃ n, g.nodes[j]? = some n ∧ P n := by
  by_cases hj : j = i
  · subst hj
    obtain ⟨w, triggers, hw, hw'⟩ := h.entry
    simp [hw, hw', hP]
  · rw [h.others j hj]

lemma getElem?_step (h : g.AgreesBut i g') :
    g'.nodes[j]? = some (.step s) ↔ g.nodes[j]? = some (.step s) := by
  have hs := h.exists_iff (P := (· = .step s)) (by simp) j
  simpa using hs

lemma ne_of_step (h : g.AgreesBut i g') (hs : g.nodes[j]? = some (.step s)) : j ≠ i := by
  rintro rfl
  obtain ⟨w, -, hw, -⟩ := h.entry
  exact absurd (hw.symm.trans hs) (by simp)

lemma isEntry_eq (h : g.AgreesBut i g') (e : Edge) : g'.isEntry e = g.isEntry e := by
  rw [isEntry, isEntry]
  by_cases ht : e.target = i
  · obtain ⟨w, triggers, hw, hw'⟩ := h.entry
    rw [ht, hw, hw']
    cases e.relation <;> rfl
  · rw [h.others _ ht]

lemma successors_eq (h : g.AgreesBut i g') (x : Nat) : g'.successors x = g.successors x := by
  simp only [successors, h.length, h.edges, h.isEntry_eq]

lemma stepsOf_eq (h : g.AgreesBut i g') (x : Nat) : g'.stepsOf x = g.stepsOf x := by
  have hkind (j : Nat) : g'.nodes[j]?.any (·.kind = .step) = g.nodes[j]?.any (·.kind = .step) := by
    rw [Bool.eq_iff_iff, Option.any_eq_true, Option.any_eq_true]
    exact h.exists_iff (fun _ _ => Iff.rfl) j
  simp only [stepsOf, h.length, h.edges, hkind]

lemma isOpen_iff (h : g.AgreesBut i g') : g'.IsOpen j ↔ g.IsOpen j :=
  h.exists_iff (fun _ _ => Iff.rfl) j

lemma isHardGate_iff (h : g.AgreesBut i g') : g'.IsHardGate j ↔ g.IsHardGate j :=
  h.exists_iff (fun _ _ => Iff.rfl) j

lemma isSoftGate_iff (h : g.AgreesBut i g') : g'.IsSoftGate j ↔ g.IsSoftGate j :=
  h.exists_iff (fun _ _ => Iff.rfl) j

lemma checksOutMutably_iff (h : g.AgreesBut i g') : g'.ChecksOutMutably j ↔ g.ChecksOutMutably j :=
  h.exists_iff (fun _ _ => Iff.rfl) j

lemma hasSoftGate_iff (h : g.AgreesBut i g') : g'.HasSoftGate p ↔ g.HasSoftGate p := by
  simp only [HasSoftGate, h.isSoftGate_iff]

lemma hasTag_eq (h : g.AgreesBut i g') (hj : j ≠ i) (tag : String) :
    g'.hasTag j tag = g.hasTag j tag := by
  rw [hasTag, hasTag, h.others j hj]

/-- A path to a step stays one, unless it needs its start to be limited to labeling. -/
lemma taggedPath (h : g.AgreesBut i g') (hlast : ∀ k ∈ p.getLast?, k ≠ i)
    (hlabeled : g.hasTag start labeledTrigger = true → g'.hasTag start labeledTrigger = true)
    (hp : TaggedPath g start tag p) : TaggedPath g' start tag p where
  begins := hp.begins
  consecutive := by simpa only [h.successors_eq] using hp.consecutive
  simple := hp.simple
  isOpen j hj := h.isOpen_iff.mpr (hp.isOpen j hj)
  noHardGate j hj := mt h.isHardGate_iff.mp (hp.noHardGate j hj)
  labeled hs := hlabeled (hp.labeled (h.hasSoftGate_iff.mp hs))
  tagged := by
    obtain ⟨k, hk, htag⟩ := hp.tagged
    exact ⟨k, hk, by rwa [h.hasTag_eq (hlast k hk)]⟩
  mutable hs := by
    obtain ⟨j, hj, hm⟩ := hp.mutable (h.hasSoftGate_iff.mp hs)
    exact ⟨j, hj, h.checksOutMutably_iff.mpr hm⟩

end AgreesBut

lemma hasTag_workflow_iff (hi : g.nodes[i]? = some (.workflow w)) :
    g.hasTag i tag = true ↔ tag = Kind.workflow.tag ∨
      (w.initialized = false ∧ tag = Node.uninitializedTag) ∨ tag ∈ w.triggers := by
  rw [hasTag_iff hi, List.contains_iff_mem, Node.tags, Text.mem_ascending]
  cases hw : w.initialized <;> simp [Node.kind, Node.isInitialized, Node.ownTags, hw]

lemma hasTag_labeled_iff (hi : g.nodes[i]? = some (.workflow w)) :
    g.hasTag i labeledTrigger = true ↔ labeledTrigger ∈ w.triggers := by
  have hkind : labeledTrigger ≠ Kind.workflow.tag := by decide
  have hunread : labeledTrigger ≠ Node.uninitializedTag := by decide
  rw [hasTag_workflow_iff hi]
  simp [hkind, hunread]

/-- More triggers bring more tags. -/
lemma hasTag_withTriggers (hi : g.nodes[i]? = some (.workflow w)) (hsub : w.triggers ⊆ triggers)
    (h : g.hasTag j tag = true) : (g.withTriggers i triggers).hasTag j tag = true := by
  by_cases hj : j = i
  · subst hj
    rw [hasTag_workflow_iff (getElem?_withTriggers hi triggers)]
    exact ((hasTag_workflow_iff hi).mp h).imp_right fun h => h.imp_right fun h => hsub h
  · rwa [(agreesBut_withTriggers hi triggers).hasTag_eq hj]

/-- More triggers bring labeling only if it is among them. -/
lemma hasTag_labeled_of_withTriggers (hi : g.nodes[i]? = some (.workflow w))
    (hlabeled : labeledTrigger ∈ triggers → labeledTrigger ∈ w.triggers)
    (h : (g.withTriggers i triggers).hasTag j labeledTrigger = true) :
    g.hasTag j labeledTrigger = true := by
  by_cases hj : j = i
  · subst hj
    have hmem := (hasTag_labeled_iff (getElem?_withTriggers hi triggers)).mp h
    exact (hasTag_labeled_iff hi).mpr (hlabeled hmem)
  · rwa [(agreesBut_withTriggers hi triggers).hasTag_eq hj] at h

end WorkflowAudit.Graph
