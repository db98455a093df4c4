import WorkflowAudit.Proofs.Graph.StepOrder

/-! From a job to its own steps. In a graph that comes of documents the steps of a parent follow each
other, so that the way along them is there, and nothing that the search finds on another way is out
of its reach. -/

namespace WorkflowAudit

/-- Steps and edges come in with documents only. -/
structure Operation.IsBuilding (o : Operation) : Prop where
  noEdge : o.isConnect = false
  noStep : ∀ s, o ≠ .insert (.step s)
  numbered : o.IsNumbered

namespace Graph

/-- Each step of a parent but the first one follows the step before it. -/
def IsLinked (g : Graph) : Prop :=
  ∀ a i, g.Links a (stepKey a.stepsName (i + 1)) .contains →
    g.Links (stepKey a.stepsName i) (stepKey a.stepsName (i + 1)) .next

/-- What holds of all graphs that are built from documents. -/
structure IsBuilt (g : Graph) : Prop where
  ordered : g.IsOrdered
  named : ∀ s, .step s ∈ g.nodes → s.IsNamed
  linked : g.IsLinked
  classified : ∀ s, .step s ∈ g.nodes → ∃ t s', s.traits = Classification.classifyStep t s'

def IsGate (g : Graph) (i : Nat) : Prop := g.IsHardGate i ∨ g.IsSoftGate i

/-- No step of a parent up to a place is skipped. -/
def IsOpenUpTo (g : Graph) (x i : Nat) : Prop := ∀ k ≤ i, ∀ z, g.IsStepOf x k z → g.IsOpen z

/-- A step of a parent without a gate before it, with no step up to it that is skipped. -/
structure IsFreeStep (g : Graph) (x i y : Nat) : Prop where
  step : g.IsStepOf x i y
  noGate : ∀ k < i, ∀ z, g.IsStepOf x k z → ¬ g.IsGate z
  isOpen : g.IsOpenUpTo x i

/-- The first gate among the steps of a parent. -/
structure IsFirstGate (g : Graph) (x i y : Nat) : Prop where
  step : g.IsStepOf x i y
  gate : g.IsGate y
  first : ∀ k < i, ∀ z, g.IsStepOf x k z → ¬ g.IsGate z

variable {g : Graph} {o : Operation} {facts : List Fact} {a : Key} {x y z i k : Nat}
  {n : Node} {j : Job} {s : Step} {tag : String} {p : List Nat}

/-! ### Graphs that are built -/

lemma isLinked_addAll (h : g.IsOrdered) (hl : g.IsLinked) (ho : o.IsNumbered)
    (hbrings : g.Brings o facts) : (g.addAll facts).IsLinked := by
  intro a i hlink
  have hgrows := grows_addAll g facts
  rcases links_of_links_addAll h.keyed h.lt_length hlink with hold | he
  · exact hgrows.links (hgrows.keyed h.keyed) (hl a i hold)
  · obtain ⟨t, parent, steps, hlists, he, hsub⟩ := hbrings.isInRow ho he rfl
    rcases (hlists.edge_iff rfl).mp he with ⟨-, rfl, i', hi, heq⟩ | ⟨hnext, -⟩
    · obtain ⟨-, rfl⟩ := stepKey_inj.mp heq
      rw [hlists.name]
      refine hbrings.links h.keyed (hsub ?_)
      exact (hlists.edge_iff rfl).mpr (.inr ⟨rfl, i, hi, rfl, rfl⟩)
    · cases hnext

lemma isLinked_ofOperations {os : List Operation}
    (hos : ∀ o ∈ os, o.isConnect = false ∧ o.IsNumbered) :
    (IndexedGraph.ofOperations os).toGraph.IsLinked := by
  apply And.right (a := (IndexedGraph.ofOperations os).toGraph.IsOrdered)
  apply foldl_perform_induction (P := fun g => g.IsOrdered ∧ g.IsLinked)
  · exact ⟨isOrdered_empty, by simp [IsLinked, Links, empty]⟩
  · rintro g i ⟨h, hl⟩
    refine ⟨h.markInitialized i, fun a i hlink => ?_⟩
    rw [links_markInitialized_iff] at hlink ⊢
    exact hl a i hlink
  · exact fun g i j r hmem => absurd (hos _ hmem).1 (by simp [Operation.isConnect])
  · rintro g facts o ho - ⟨h, hl⟩ hbrings
    exact ⟨h.addAll (hos o ho).2 hbrings, isLinked_addAll h hl (hos o ho).2 hbrings⟩

lemma isBuilt_ofOperations {os : List Operation} (hos : ∀ o ∈ os, o.IsBuilding) :
    (IndexedGraph.ofOperations os).toGraph.IsBuilt where
  ordered := isOrdered_ofOperations fun o ho => ⟨(hos o ho).noEdge, (hos o ho).numbered⟩
  named := isNamed_of_mem_nodes fun o ho => (hos o ho).numbered
  linked := isLinked_ofOperations fun o ho => ⟨(hos o ho).noEdge, (hos o ho).numbered⟩
  classified s hs := by
    obtain hinsert | ⟨t, parent, s', heq⟩ := step_of_mem_nodes s hs
    · exact absurd rfl ((hos _ hinsert).noStep s)
    · obtain rfl := Node.step.inj heq
      exact ⟨t, s', rfl⟩

/-! ### The steps of a job -/

lemma mem_stepsOf_iff : y ∈ g.stepsOf x ↔ ∃ i, g.IsStepOf x i y := by
  rw [stepsOf, List.mem_filter, List.mem_range, Bool.and_eq_true, List.contains_iff_mem,
    Option.any_eq_true]
  constructor
  · rintro ⟨-, he, n, hn, hkind⟩
    cases n with
    | step s => exact ⟨s.index, he, s, hn, rfl⟩
    | repo _ | workflow _ | job _ | action _ => cases of_decide_eq_true hkind
  · rintro ⟨i, he, s, hs, -⟩
    exact ⟨(List.getElem?_eq_some_iff.mp hs).1, he, .step s, hs, decide_eq_true rfl⟩

lemma IsStepOf.index_eq {x' : Nat} (h : g.IsStepOf x i y) (h' : g.IsStepOf x' k y) : i = k := by
  obtain ⟨-, s, hs, rfl⟩ := h
  obtain ⟨-, s', hs', rfl⟩ := h'
  rw [Node.step.inj (Option.some.inj (hs.symm.trans hs'))]

lemma IsOrdered.isStepOf_unique (h : g.IsOrdered) (hnamed : ∀ s, .step s ∈ g.nodes → s.IsNamed)
    (hy : g.IsStepOf x i y) (hz : g.IsStepOf x i z) : y = z := by
  obtain ⟨n, -, hn, -, -⟩ := h.sorted _ hy.1
  have hy' := (h.isStepOf_iff hnamed hn hy le_rfl).mp hy
  have hz' := (h.isStepOf_iff hnamed hn hy le_rfl).mp hz
  exact Option.some.inj (hy'.symm.trans hz')

lemma IsBuilt.exists_step_before (h : g.IsBuilt) (hn : g.nodes[x]? = some n)
    (hy : g.IsStepOf x (i + 1) y) : ∃ z, g.IsStepOf x i z ∧ y ∈ g.successors z := by
  obtain ⟨s, hs, hkey⟩ := h.ordered.key_of_isStepOf h.named hn hy
  have hlink : g.Links n.key (stepKey n.key.stepsName (i + 1)) .contains :=
    ⟨x, y, h.ordered.keyed.number? hn, hkey ▸ h.ordered.keyed.number? hs, hy.1⟩
  obtain ⟨z, -, hz, -, -⟩ := h.linked _ _ hlink
  have hstep := (h.ordered.isStepOf_iff h.named hn hy (Nat.le_succ i)).mpr hz
  obtain ⟨s', hs', hkey'⟩ := h.ordered.key_of_isStepOf h.named hn hstep
  have hfollows : g.Links (Node.step s').key (Node.step s).key .next := by
    rw [hkey, hkey']
    exact h.linked _ _ hlink
  exact ⟨z, hstep, mem_successors_of_links h.ordered.keyed hfollows hs' hs (by simp)⟩

/-- The way from a job along its own steps. -/
lemma IsBuilt.exists_row (h : g.IsBuilt) (hx : g.nodes[x]? = some (.job j))
    (hy : g.IsStepOf x i y) :
    ∃ row, (∀ z ∈ row, ∃ k < i, g.IsStepOf x k z) ∧
      (x :: (row ++ [y])).IsChain (fun a b => b ∈ g.successors a) ∧ (x :: (row ++ [y])).Nodup := by
  have hstep {k z : Nat} (hz : g.IsStepOf x k z) : x ≠ z := by
    rintro rfl
    obtain ⟨-, s, hs, -⟩ := hz
    exact Node.noConfusion (Option.some.inj (hx.symm.trans hs))
  induction i generalizing y with
  | zero =>
    obtain ⟨he, s, hs, hindex⟩ := hy
    refine ⟨[], by simp, List.isChain_pair.mpr ?_, by simpa using hstep ⟨he, s, hs, hindex⟩⟩
    exact mem_successors_iff.mpr ⟨(List.getElem?_eq_some_iff.mp hs).1, _, he, by
      simp [isEntry, hs, hindex]⟩
  | succ i ih =>
    obtain ⟨z, hz, hnext⟩ := h.exists_step_before hx hy
    obtain ⟨row, hrow, hchain, hnodup⟩ := ih hz
    have hbefore : ∀ u ∈ row ++ [z], ∃ k < i + 1, g.IsStepOf x k u := by
      intro u hu
      rcases List.mem_append.mp hu with hu | hu
      · obtain ⟨k, hk, hstep⟩ := hrow u hu
        exact ⟨k, hk.trans (Nat.lt_succ_self i), hstep⟩
      · exact ⟨i, Nat.lt_succ_self i, List.mem_singleton.mp hu ▸ hz⟩
    have hnew : y ∉ x :: (row ++ [z]) := by
      rw [List.mem_cons, not_or]
      refine ⟨(hstep hy).symm, fun hmem => ?_⟩
      obtain ⟨k, hk, hsame⟩ := hbefore y hmem
      exact hk.ne (hsame.index_eq hy)
    refine ⟨row ++ [z], hbefore, ?_, ?_⟩
    · rw [← List.cons_append]
      refine hchain.append (List.isChain_singleton y) fun u hu v hv => ?_
      rw [← List.cons_append, List.getLast?_concat, Option.mem_some_iff] at hu
      rw [List.head?_singleton, Option.mem_some_iff] at hv
      rwa [← hu, ← hv]
    · rw [← List.cons_append]
      exact List.Nodup.append hnodup (List.nodup_singleton y)
        (List.disjoint_singleton.mpr hnew)

lemma not_isGate_of_job (hx : g.nodes[x]? = some (.job j)) : ¬ g.IsGate x := by
  rw [IsGate, isHardGate_iff hx, isSoftGate_iff hx]
  simp [Node.traits?]

lemma IsFirstGate.index_eq {i' y' : Nat} (h : g.IsFirstGate x i y) (h' : g.IsFirstGate x i' y') :
    i = i' := by
  rcases Nat.lt_trichotomy i i' with hlt | heq | hgt
  · exact absurd h.gate (h'.first i hlt y h.step)
  · exact heq
  · exact absurd h'.gate (h.first i' hgt y' h'.step)

lemma isFirstGate_and_isOpenUpTo_iff :
    g.IsFirstGate x i y ∧ g.IsOpenUpTo x i ↔ g.IsFreeStep x i y ∧ g.IsGate y :=
  ⟨fun ⟨h, hopen⟩ => ⟨⟨h.step, h.first, hopen⟩, h.gate⟩,
    fun ⟨h, hgate⟩ => ⟨⟨h.step, hgate, h.noGate⟩, h.isOpen⟩⟩

lemma IsFreeStep.exists_path (h : g.IsBuilt) (hx : g.nodes[x]? = some (.job j))
    (hopen : g.IsOpen x) (hfree : g.IsFreeStep x i y) (htag : g.hasTag y tag = true) :
    ∃ p ∈ g.paths x tag, y ∈ p.getLast? := by
  obtain ⟨row, hrow, hchain, hnodup⟩ := h.exists_row hx hfree.step
  have hlast : y ∈ (x :: (row ++ [y])).getLast? := by
    rw [← List.cons_append, List.getLast?_concat, Option.mem_some_iff]
  have hgates : ∀ z ∈ (x :: (row ++ [y])).dropLast, ¬ g.IsGate z := by
    rw [← List.cons_append, List.dropLast_concat, List.forall_mem_cons]
    refine ⟨not_isGate_of_job hx, fun z hz => ?_⟩
    obtain ⟨k, hk, hstep⟩ := hrow z hz
    exact hfree.noGate k hk z hstep
  have hsoft : ¬ g.HasSoftGate (x :: (row ++ [y])).dropLast := by
    rintro ⟨z, hz, hgate⟩
    exact hgates z hz (.inr hgate)
  refine ⟨_, mem_paths_iff.mpr ?_, hlast⟩
  refine ⟨rfl, hchain, hnodup, ?_, fun z hz hgate => hgates z hz (.inl hgate), (absurd · hsoft),
    ⟨y, hlast, htag⟩, (absurd · hsoft)⟩
  rw [List.forall_mem_cons, List.forall_mem_append, List.forall_mem_singleton]
  refine ⟨hopen, fun z hz => ?_, hfree.isOpen i le_rfl y hfree.step⟩
  obtain ⟨k, hk, hstep⟩ := hrow z hz
  exact hfree.isOpen k hk.le z hstep

/-- However a path from a job comes to a step of the job, it has passed the steps before it. -/
lemma TaggedPath.isFreeStep (h : g.IsBuilt) (hx : g.nodes[x]? = some (.job j))
    (hp : TaggedPath g x tag p) (hy : g.IsStepOf x i y) (hlast : y ∈ p.getLast?) :
    g.IsFreeStep x i y := by
  have hno (s : Step) : g.nodes[x]? ≠ some (.step s) := by
    rw [hx]
    simp
  obtain ⟨before, x', run, after, hsplit, -, hplaces, -⟩ :=
    h.ordered.exists_run_of_isStepOf h.named hp.consecutive hp.begins hno hy
      (List.mem_of_mem_getLast? hlast)
  have hmem {k z : Nat} (hk : k ≤ i) (hz : g.IsStepOf x k z) : z ∈ p := by
    have hrun : z ∈ run := List.mem_of_getElem? ((hplaces k z).mpr ⟨hk, hz⟩)
    rw [hsplit]
    simp [hrun]
  have hbefore {k z : Nat} (hk : k < i) (hz : g.IsStepOf x k z) : z ∈ p.dropLast := by
    have hne : z ≠ y := by
      rintro rfl
      exact hk.ne (hz.index_eq hy)
    have hz' := hmem hk.le hz
    rw [← List.dropLast_append_getLast? y hlast] at hz'
    simpa [hne] using hz'
  refine ⟨hy, fun k hk z hz => ?_, fun k hk z hz => hp.isOpen z (hmem hk hz)⟩
  rintro (hhard | hsoft)
  · exact hp.noHardGate z (hbefore hk hz) hhard
  · exact not_hasTag_labeled_of_job hx (hp.labeled ⟨z, hbefore hk hz, hsoft⟩)

/-! ### The tags of gates -/

lemma hasTag_check_iff (hs : g.nodes[y]? = some (.step s)) :
    g.hasTag y "permission_check" = true ↔ s.traits.isGate = true := by
  rw [hasTag_iff_of_isInitialized hs rfl]
  simp [Node.ownTags, Node.traitTags, Node.kind, Kind.tag]

lemma hasTag_blocker_iff (hs : g.nodes[y]? = some (.step s)) :
    g.hasTag y "permission_blocker" = true ↔ g.IsHardGate y := by
  rw [hasTag_iff_of_isInitialized hs rfl, isHardGate_iff hs]
  simp [Node.ownTags, Node.traitTags, Node.kind, Kind.tag, Node.traits?]

lemma IsBuilt.hasTag_check_iff (h : g.IsBuilt) (hs : g.nodes[y]? = some (.step s)) :
    g.hasTag y "permission_check" = true ↔ g.IsGate y := by
  obtain ⟨t, s', htraits⟩ := h.classified s (List.mem_of_getElem? hs)
  rw [Graph.hasTag_check_iff hs, IsGate, isHardGate_iff hs, isSoftGate_iff hs, Node.traits?,
    Option.any_some, Option.any_some, htraits, ← not_iff_not, Bool.not_eq_true,
    isGate_eq_false_iff, not_or, Bool.not_eq_true, Bool.not_eq_true]

/-- No gate is of both kinds. -/
lemma IsBuilt.not_isHardGate (h : g.IsBuilt) (hsoft : g.IsSoftGate y) : ¬ g.IsHardGate y := by
  obtain ⟨n, hn, hsoft⟩ := hsoft
  rw [isHardGate_iff hn]
  cases n with
  | step s =>
    obtain ⟨t, s', htraits⟩ := h.classified s (List.mem_of_getElem? hn)
    rw [Node.traits?, Option.any_some, htraits] at hsoft ⊢
    simp only [Classification.classifyStep, decide_eq_true_eq] at hsoft ⊢
    rw [hsoft]
    simp
  | repo _ | workflow _ | job _ | action _ => cases hsoft

end Graph

end WorkflowAudit
