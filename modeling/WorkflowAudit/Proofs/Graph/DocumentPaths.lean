import Mathlib.Data.List.Chain
import WorkflowAudit.Document.Reader
import WorkflowAudit.Proofs.Graph.DocumentFacts
import WorkflowAudit.Proofs.Graph.TaggedPaths

/-! The paths of a workflow's own graph: from the workflow through jobs, each of which waits for the
one before it, into the steps of the last one. -/

namespace WorkflowAudit

namespace Document

/-- Each step has the number of its place. -/
def IsNumbered (d : Document) : Prop :=
  ∀ j ∈ d.jobs, ∀ (i : Nat) (s : Step), j.steps[i]? = some s → s.index = i

lemma IsNumbered.index_ne {d : Document} (hd : d.IsNumbered) {j : Job} (hj : j ∈ d.jobs)
    {i k : Nat} {s s' : Step} (hs : j.steps[i]? = some s) (hs' : j.steps[k]? = some s')
    (h : i ≠ k) : s.index ≠ s'.index := by
  rw [hd j hj i s hs, hd j hj k s' hs']
  exact h

lemma index_of_readSteps {v : Option Yaml} {i : Nat} {s : Step} (h : (readSteps v)[i]? = some s) :
    s.index = i := by
  unfold readSteps at h
  split at h
  · rw [List.getElem?_mapIdx] at h
    obtain ⟨es, -, rfl⟩ := Option.map_eq_some_iff.mp h
    rfl
  · exact absurd h (by simp)

lemma exists_readJob {es : Entries} {j : Job} (h : j ∈ (readContent es).jobs) :
    ∃ name body, j = readJob name body := by
  simp only [readContent] at h
  split at h
  · exact ⟨_, _, List.mem_singleton.mp h⟩
  · rw [readJobs] at h
    split at h
    · obtain ⟨e, -, he⟩ := List.mem_filterMap.mp h
      split at he
      · exact ⟨_, _, (Option.some.inj he).symm⟩
      · exact absurd he (by simp)
    · exact absurd h List.not_mem_nil

lemma isNumbered_of_content {d : Document} {es : Entries}
    (h : d.content = some (readContent es)) : d.IsNumbered := by
  intro j hj i s hs
  rw [jobs, h] at hj
  obtain ⟨name, body, rfl⟩ := exists_readJob hj
  exact index_of_readSteps hs

lemma isNumbered_parse (text repo ref path : String) : (parse text repo ref path).IsNumbered := by
  cases hc : (parse text repo ref path).content with
  | none =>
    intro j hj
    rw [jobs, hc] at hj
    exact absurd hj List.not_mem_nil
  | some c =>
    obtain ⟨es, rfl⟩ : ∃ es, c = readContent es := by
      rw [parse] at hc
      dsimp only at hc
      split at hc
      · split at hc
        · exact ⟨_, (Option.some.inj hc).symm⟩
        · cases hc
      · cases hc
    exact isNumbered_of_content hc

end Document

namespace Graph

variable {t : Classification.Tables} {d : Document} {j j' : Document.Job}
  {s s' : Document.Step} {g : Graph} {n m : Node} {a b : Key} {r : Relation} {x y i : Nat}

lemma mem_successors_iff :
    y ∈ g.successors x ↔
      y < g.nodes.length ∧ ∃ r, ⟨x, y, r⟩ ∈ g.edges ∧ g.isEntry ⟨x, y, r⟩ = true := by
  rw [successors, List.mem_filter, List.mem_range, List.any_eq_true]
  refine and_congr_right fun _ => ⟨?_, ?_⟩
  · rintro ⟨⟨x', y', r⟩, he, hc⟩
    simp only [Bool.and_eq_true, decide_eq_true_eq] at hc
    obtain ⟨⟨rfl, rfl⟩, hentry⟩ := hc
    exact ⟨r, he, hentry⟩
  · rintro ⟨r, he, hentry⟩
    exact ⟨_, he, by simpa using hentry⟩

lemma mem_edges_of_links (hk : g.IsKeyed) (hl : g.Links n.key m.key r)
    (hx : g.nodes[x]? = some n) (hy : g.nodes[y]? = some m) : ⟨x, y, r⟩ ∈ g.edges := by
  obtain ⟨x', y', hx', hy', he⟩ := hl
  obtain rfl : x' = x := Option.some.inj (hx'.symm.trans (hk.number? hx))
  obtain rfl : y' = y := Option.some.inj (hy'.symm.trans (hk.number? hy))
  exact he

lemma mem_successors_of_links (hk : g.IsKeyed) (hl : g.Links n.key m.key r)
    (hx : g.nodes[x]? = some n) (hy : g.nodes[y]? = some m)
    (hentry : ∀ s, m = .step s → r = .contains → s.index = 0) : y ∈ g.successors x := by
  refine mem_successors_iff.mpr ⟨(List.getElem?_eq_some_iff.mp hy).1, r,
    mem_edges_of_links hk hl hx hy, ?_⟩
  rw [isEntry]
  split
  · next s hr hs =>
    obtain rfl : m = .step s := Option.some.inj (hy.symm.trans hs)
    simpa using hentry s rfl hr
  · rfl

/-- The graph has grown from that of a workflow. -/
structure Includes (t : Classification.Tables) (d : Document) (g : Graph) : Prop where
  grows : (ofWorkflow t d).Grows g
  keyed : g.IsKeyed

lemma includes_ofWorkflow (t : Classification.Tables) (d : Document) :
    Includes t d (ofWorkflow t d) :=
  ⟨.refl _, isKeyed_ofWorkflow t d⟩

lemma Includes.exists_of_mem (h : Includes t d g) (hn : n.isInitialized = true)
    (hm : n ∈ (ofWorkflow t d).nodes) : ∃ x : Nat, g.nodes[x]? = some n := by
  obtain ⟨x, hx⟩ := List.mem_iff_getElem?.mp hm
  exact ⟨x, h.grows.getElem? hx hn⟩

lemma Includes.links (h : Includes t d g) (hj : j ∈ d.jobs) (he : .edge a b r ∈ jobFacts t d j) :
    g.Links a b r :=
  h.grows.links h.keyed (links_ofWorkflow_of_job hj he)

lemma Includes.firstJob_successor (h : Includes t d g) (hj : j ∈ d.jobs)
    (hneeds : knownNeeds d j = []) (hx : g.nodes[x]? = some (workflowNode d))
    (hy : g.nodes[y]? = some (jobNode d j)) : y ∈ g.successors x :=
  mem_successors_of_links h.keyed (h.links hj (contains_mem_jobFacts hneeds)) hx hy
    (by simp [jobNode])

lemma Includes.waitingJob_successor (h : Includes t d g) (hj : j ∈ d.jobs)
    (hneed : j'.name ∈ knownNeeds d j) (hx : g.nodes[x]? = some (jobNode d j'))
    (hy : g.nodes[y]? = some (jobNode d j)) : y ∈ g.successors x :=
  mem_successors_of_links h.keyed (h.links hj (needs_mem_jobFacts hneed)) hx hy (by simp)

lemma Includes.firstStep_successor (h : Includes t d g) (hj : j ∈ d.jobs) (hs : s ∈ j.steps)
    (hindex : s.index = 0) (hx : g.nodes[x]? = some (jobNode d j))
    (hy : g.nodes[y]? = some (stepNode t (.ofJob d j) s)) : y ∈ g.successors x := by
  refine mem_successors_of_links h.keyed (h.links hj (r := .contains) ?_) hx hy ?_
  · exact List.mem_append_right _ (contains_mem_stepFacts hs)
  · rintro s' hs' -
    obtain rfl := Node.step.inj hs'
    exact hindex

lemma Includes.nextStep_successor (h : Includes t d g) (hj : j ∈ d.jobs)
    (hs : j.steps[i]? = some s) (hs' : j.steps[i + 1]? = some s')
    (hx : g.nodes[x]? = some (stepNode t (.ofJob d j) s))
    (hy : g.nodes[y]? = some (stepNode t (.ofJob d j) s')) : y ∈ g.successors x := by
  refine mem_successors_of_links h.keyed (h.links hj (r := .next) ?_) hx hy (by simp)
  exact List.mem_append_right _ (next_mem_stepFacts hs hs')

lemma Includes.mem_stepsOf (h : Includes t d g) (hj : j ∈ d.jobs) (hs : s ∈ j.steps)
    (hx : g.nodes[x]? = some (jobNode d j))
    (hy : g.nodes[y]? = some (stepNode t (.ofJob d j) s)) : y ∈ g.stepsOf x := by
  have hl : g.Links (jobNode d j).key (stepNode t (.ofJob d j) s).key .contains :=
    h.links hj (List.mem_append_right _ (contains_mem_stepFacts hs))
  rw [stepsOf, List.mem_filter, List.mem_range, List.contains_iff_mem.mpr
    (mem_edges_of_links h.keyed hl hx hy), hy, Bool.true_and]
  exact ⟨(List.getElem?_eq_some_iff.mp hy).1, rfl⟩

/-- The numbers of a run of steps. -/
def IsRun (t : Classification.Tables) (g : Graph) (parent : Parent) (xs : List Nat)
    (steps : List Document.Step) : Prop :=
  List.Forall₂ (fun x s => g.nodes[x]? = some (stepNode t parent s)) xs steps

lemma exists_forall₂ {α β : Type} {R : α → β → Prop} {l : List β} (h : ∀ b ∈ l, ∃ a, R a b) :
    ∃ l', List.Forall₂ R l' l := by
  induction l with
  | nil => exact ⟨[], .nil⟩
  | cons b l ih =>
    obtain ⟨a, ha⟩ := h b (by simp)
    obtain ⟨l', hl⟩ := ih fun b hb => h b (List.mem_cons_of_mem _ hb)
    exact ⟨a :: l', .cons ha hl⟩

lemma stepNode_mem_of_isNumbered (hd : d.IsNumbered) (hj : IsFirstNamed d j)
    (hs : j.steps[i]? = some s) : stepNode t (.ofJob d j) s ∈ (ofWorkflow t d).nodes := by
  refine stepNode_mem hj hs fun s' hs' => ?_
  obtain ⟨k, hk⟩ := List.mem_iff_getElem?.mp hs'
  rw [List.getElem?_take] at hk
  split at hk
  · next hki => exact hd.index_ne (mem_of_isFirstNamed hj) hk hs hki.ne
  · exact absurd hk (by simp)

lemma Includes.exists_run (h : Includes t d g) (hd : d.IsNumbered) (hj : IsFirstNamed d j) :
    ∃ xs, IsRun t g (.ofJob d j) xs j.steps := by
  refine exists_forall₂ fun s hs => h.exists_of_mem rfl ?_
  obtain ⟨i, hi⟩ := List.mem_iff_getElem?.mp hs
  exact stepNode_mem_of_isNumbered hd hj hi

lemma IsRun.getElem? {parent : Parent} {xs : List Nat} {steps : List Document.Step}
    (h : IsRun t g parent xs steps) (hx : xs[i]? = some x) :
    ∃ s, steps[i]? = some s ∧ g.nodes[x]? = some (stepNode t parent s) := by
  obtain ⟨hlen, hget⟩ := List.forall₂_iff_get.mp h
  obtain ⟨hi, rfl⟩ := List.getElem?_eq_some_iff.mp hx
  exact ⟨_, List.getElem?_eq_getElem (hlen ▸ hi), hget i hi (hlen ▸ hi)⟩

lemma IsRun.exists_getElem? {parent : Parent} {xs : List Nat} {steps : List Document.Step}
    (h : IsRun t g parent xs steps) (hs : steps[i]? = some s) :
    ∃ x, xs[i]? = some x ∧ g.nodes[x]? = some (stepNode t parent s) := by
  have hi := (List.getElem?_eq_some_iff.mp hs).1
  rw [← h.length_eq] at hi
  obtain ⟨s', hs', hn⟩ := h.getElem? (List.getElem?_eq_getElem hi)
  obtain rfl := Option.some.inj (hs.symm.trans hs')
  exact ⟨_, List.getElem?_eq_getElem hi, hn⟩

lemma IsRun.isChain (h : Includes t d g) (hj : j ∈ d.jobs) {xs : List Nat}
    (hr : IsRun t g (.ofJob d j) xs j.steps) : xs.IsChain fun x y => y ∈ g.successors x := by
  refine List.isChain_iff_getElem.mpr fun i hi => ?_
  obtain ⟨s, hs, hx⟩ := hr.getElem? (List.getElem?_eq_getElem (Nat.lt_of_succ_lt hi))
  obtain ⟨s', hs', hy⟩ := hr.getElem? (List.getElem?_eq_getElem hi)
  exact h.nextStep_successor hj hs hs' hx hy

lemma IsRun.nodup (hd : d.IsNumbered) (hj : j ∈ d.jobs) {xs : List Nat}
    (hr : IsRun t g (.ofJob d j) xs j.steps) : xs.Nodup := by
  refine List.nodup_iff_getElem?_ne_getElem?.mpr fun i k hik hk heq => ?_
  obtain ⟨s, hs, hx⟩ := hr.getElem? (List.getElem?_eq_getElem (hik.trans hk))
  obtain ⟨s', hs', hy⟩ := hr.getElem? (List.getElem?_eq_getElem hk)
  rw [List.getElem?_eq_getElem (hik.trans hk), List.getElem?_eq_getElem hk] at heq
  rw [Option.some.inj heq] at hx
  have hnode : stepNode t (.ofJob d j) s = stepNode t (.ofJob d j) s' :=
    Option.some.inj (hx.symm.trans hy)
  have hindex := (key_stepNode_inj.mp (congrArg Node.key hnode)).2
  exact hd.index_ne hj hs hs' hik.ne hindex

/-- What an outsider needs to come through some steps: no one is skipped, none but the last one is a
hard gate, and a soft gate before the last one is raced by a checkout after labeling. -/
@[mk_iff]
structure IsPassable (t : Classification.Tables) (labeled : Prop) (steps : List Document.Step) :
    Prop where
  isOpen : ∀ s ∈ steps, (Condition.ofText? s.condition).isRestricted = false
  noHardGate : ∀ s ∈ steps.dropLast, (Classification.classifyStep t s).hardGate = false
  raced : (∃ s ∈ steps.dropLast, (Classification.classifyStep t s).softGate = true) →
    labeled ∧ ∃ s ∈ steps, (Classification.classifyStep t s).isMutableCheckout = true

lemma not_gate_of_isGate (h : (Classification.classifyStep t s).isGate = false) :
    (Classification.classifyStep t s).hardGate = false ∧
      (Classification.classifyStep t s).softGate = false := by
  simp only [Classification.classifyStep, Option.isSome_eq_false_iff, Option.isNone_iff_eq_none]
    at h ⊢
  simp [h]

lemma isGate_eq_false_iff :
    (Classification.classifyStep t s).isGate = false ↔
      (Classification.classifyStep t s).hardGate = false ∧
        (Classification.classifyStep t s).softGate = false := by
  refine ⟨not_gate_of_isGate, ?_⟩
  simp only [Classification.classifyStep, decide_eq_false_iff_not]
  rcases Classification.stepGate t (s.uses.bind Uses.parse?)
    (Classification.stepScript (s.uses.bind Uses.parse?) s.run s.inputs) with _ | (_ | _) <;> simp

lemma IsRun.dropLast {parent : Parent} {xs : List Nat} {steps : List Document.Step}
    (h : IsRun t g parent xs steps) : IsRun t g parent xs.dropLast steps.dropLast := by
  rw [List.dropLast_eq_take, List.dropLast_eq_take, h.length_eq]
  exact List.forall₂_take _ h

lemma IsRun.exists_iff {parent : Parent} {xs : List Nat} {steps : List Document.Step}
    (h : IsRun t g parent xs steps) {P : Nat → Prop} {Q : Document.Step → Prop}
    (hPQ : ∀ x s, g.nodes[x]? = some (stepNode t parent s) → (P x ↔ Q s)) :
    (∃ x ∈ xs, P x) ↔ ∃ s ∈ steps, Q s := by
  induction h with
  | nil => simp
  | cons hx _ ih => simp [hPQ _ _ hx, ih]

lemma IsRun.forall_iff {parent : Parent} {xs : List Nat} {steps : List Document.Step}
    (h : IsRun t g parent xs steps) {P : Nat → Prop} {Q : Document.Step → Prop}
    (hPQ : ∀ x s, g.nodes[x]? = some (stepNode t parent s) → (P x ↔ Q s)) :
    (∀ x ∈ xs, P x) ↔ ∀ s ∈ steps, Q s := by
  induction h with
  | nil => simp
  | cons hx _ ih => simp [hPQ _ _ hx, ih]

lemma IsRun.last {parent : Parent} {xs : List Nat} {steps : List Document.Step}
    (h : IsRun t g parent xs steps) (hx : x ∈ xs.getLast?) :
    ∃ s ∈ steps.getLast?, g.nodes[x]? = some (stepNode t parent s) := by
  rw [Option.mem_def, List.getLast?_eq_getElem?] at hx
  obtain ⟨s, hs, hn⟩ := h.getElem? hx
  refine ⟨s, ?_, hn⟩
  rw [Option.mem_def, List.getLast?_eq_getElem?, ← h.length_eq]
  exact hs

lemma IsRun.ne_nil {parent : Parent} {xs : List Nat} {steps : List Document.Step}
    (h : IsRun t g parent xs steps) (hs : s ∈ steps) : xs ≠ [] := by
  rintro rfl
  rw [List.forall₂_nil_left_iff.mp h] at hs
  exact List.not_mem_nil hs

lemma isOpen_stepNode_iff {parent : Parent} (h : g.nodes[x]? = some (stepNode t parent s)) :
    g.IsOpen x ↔ (Condition.ofText? s.condition).isRestricted = false :=
  isOpen_iff h

lemma isHardGate_stepNode_iff {parent : Parent} (h : g.nodes[x]? = some (stepNode t parent s)) :
    g.IsHardGate x ↔ (Classification.classifyStep t s).hardGate = true :=
  isHardGate_iff h

lemma isSoftGate_stepNode_iff {parent : Parent} (h : g.nodes[x]? = some (stepNode t parent s)) :
    g.IsSoftGate x ↔ (Classification.classifyStep t s).softGate = true :=
  isSoftGate_iff h

lemma checksOutMutably_stepNode_iff {parent : Parent}
    (h : g.nodes[x]? = some (stepNode t parent s)) :
    g.ChecksOutMutably x ↔ (Classification.classifyStep t s).isMutableCheckout = true :=
  checksOutMutably_iff h

/-- A way through open nodes none of which is a step. -/
structure IsApproach (g : Graph) (front : List Nat) : Prop where
  consecutive : front.IsChain fun x y => y ∈ g.successors x
  simple : front.Nodup
  isOpen : ∀ x ∈ front, g.IsOpen x
  noStep : ∀ x ∈ front, ∀ n, g.nodes[x]? = some n → n.traits? = none

lemma IsApproach.not_isHardGate {front : List Nat} (h : IsApproach g front) :
    ∀ x ∈ front, ¬ g.IsHardGate x := by
  rintro x hx ⟨n, hn, hg⟩
  simp [h.noStep x hx n hn] at hg

lemma IsApproach.hasSoftGate_append_iff {front : List Nat} (h : IsApproach g front)
    (xs : List Nat) : g.HasSoftGate (front ++ xs) ↔ g.HasSoftGate xs := by
  have hfront : ¬ g.HasSoftGate front := by
    rintro ⟨x, hx, n, hn, hg⟩
    simp [h.noStep x hx n hn] at hg
  simp only [HasSoftGate, List.mem_append, or_and_right, exists_or] at hfront ⊢
  rw [or_iff_right hfront]

lemma IsApproach.checksOutMutably_append_iff {front : List Nat} (h : IsApproach g front)
    (xs : List Nat) :
    (∃ x ∈ front ++ xs, g.ChecksOutMutably x) ↔ ∃ x ∈ xs, g.ChecksOutMutably x := by
  have hfront : ¬ ∃ x ∈ front, g.ChecksOutMutably x := by
    rintro ⟨x, hx, n, hn, hg⟩
    simp [Progress.isMutableCheckout, h.noStep x hx n hn] at hg
  simp only [List.mem_append, or_and_right, exists_or]
  rw [or_iff_right hfront]

/-- The search comes through a run of steps behind an approach just in case an outsider does. -/
lemma taggedPath_append_iff {parent : Parent} {front xs : List Nat} {steps : List Document.Step}
    {start : Nat} {tag : String} (ha : IsApproach g front) (hstart : front.head? = some start)
    (hr : IsRun t g parent xs steps) (hne : xs ≠ [])
    (hchain : (front ++ xs).IsChain fun x y => y ∈ g.successors x) (hsimple : (front ++ xs).Nodup) :
    TaggedPath g start tag (front ++ xs) ↔
      IsPassable t (g.hasTag start labeledTrigger = true) steps ∧
        ∃ s ∈ steps.getLast?, tag ∈ (stepNode t parent s).tags := by
  have hdrop : (front ++ xs).dropLast = front ++ xs.dropLast := List.dropLast_append_of_ne_nil hne
  have hlast : (front ++ xs).getLast? = xs.getLast? := List.getLast?_append_of_ne_nil _ hne
  -- No node in front is a step, so all gates and checkouts on the path are those of the run.
  have hopen := hr.forall_iff fun x s => isOpen_stepNode_iff (x := x)
  have hhard := hr.dropLast.forall_iff fun x s h => not_congr (isHardGate_stepNode_iff (x := x) h)
  have hsoft : g.HasSoftGate (front ++ xs).dropLast ↔
      ∃ s ∈ steps.dropLast, (Classification.classifyStep t s).softGate = true := by
    rw [hdrop, ha.hasSoftGate_append_iff]
    exact hr.dropLast.exists_iff fun x s => isSoftGate_stepNode_iff
  have hmutable : (∃ x ∈ front ++ xs, g.ChecksOutMutably x) ↔
      ∃ s ∈ steps, (Classification.classifyStep t s).isMutableCheckout = true := by
    rw [ha.checksOutMutably_append_iff]
    exact hr.exists_iff fun x s => checksOutMutably_stepNode_iff
  have htag : ∀ x ∈ xs.getLast?, (g.hasTag x tag = true ↔
      ∃ s ∈ steps.getLast?, tag ∈ (stepNode t parent s).tags) := by
    intro x hx
    obtain ⟨s, hs, hn⟩ := hr.last hx
    rw [hasTag_iff hn, List.contains_iff_mem, Option.mem_def.mp hs]
    simp
  simp only [Bool.not_eq_true] at hhard
  constructor
  · intro h
    refine ⟨⟨hopen.mp fun x hx => h.isOpen x (List.mem_append_right _ hx), hhard.mp fun x hx => ?_,
      fun hs => ⟨h.labeled (hsoft.mpr hs), hmutable.mp (h.mutable (hsoft.mpr hs))⟩⟩, ?_⟩
    · exact h.noHardGate x (hdrop ▸ List.mem_append_right _ hx)
    · obtain ⟨x, hx, hx'⟩ := h.tagged
      rw [hlast] at hx
      exact (htag x hx).mp hx'
  · rintro ⟨h, hs⟩
    refine ⟨?_, hchain, hsimple, ?_, ?_, fun hs => (h.raced (hsoft.mp hs)).1, ?_,
      fun hs => hmutable.mpr (h.raced (hsoft.mp hs)).2⟩
    · rw [List.head?_append, hstart, Option.some_or]
    · intro x hx
      exact (List.mem_append.mp hx).elim (ha.isOpen x) (hopen.mpr h.isOpen x)
    · intro x hx
      rw [hdrop] at hx
      exact (List.mem_append.mp hx).elim (ha.not_isHardGate x) (hhard.mpr h.noHardGate x)
    · obtain ⟨x, hx⟩ := Option.ne_none_iff_exists'.mp (mt List.getLast?_eq_none_iff.mp hne)
      exact ⟨x, hlast.trans hx, (htag x hx).mpr hs⟩

lemma Includes.isApproach_of_firstJob (h : Includes t d g) (hj : j ∈ d.jobs)
    (hneeds : knownNeeds d j = [])
    (hopen : (Condition.ofText? j.condition).isRestricted = false) {w x : Nat}
    (hw : g.nodes[w]? = some (workflowNode d)) (hx : g.nodes[x]? = some (jobNode d j)) :
    IsApproach g [w, x] := by
  have hne : w ≠ x := by
    rintro rfl
    exact absurd (hw.symm.trans hx) (by simp [workflowNode, jobNode])
  refine ⟨by simpa using h.firstJob_successor hj hneeds hw hx, by simpa using hne, ?_, ?_⟩
  · intro y hy
    rcases List.mem_pair.mp hy with rfl | rfl
    · exact (isOpen_iff hw).mpr rfl
    · exact (isOpen_iff hx).mpr hopen
  · intro y hy n hn
    rcases List.mem_pair.mp hy with rfl | rfl
    · obtain rfl := Option.some.inj (hw.symm.trans hn)
      rfl
    · obtain rfl := Option.some.inj (hx.symm.trans hn)
      rfl

lemma IsRun.getElem?_of_mem {parent : Parent} {xs : List Nat} {steps : List Document.Step}
    (h : IsRun t g parent xs steps) (hx : x ∈ xs) :
    ∃ s ∈ steps, g.nodes[x]? = some (stepNode t parent s) := by
  obtain ⟨i, hi⟩ := List.mem_iff_getElem?.mp hx
  obtain ⟨s, hs, hn⟩ := h.getElem? hi
  exact ⟨s, List.mem_of_getElem? hs, hn⟩

lemma IsApproach.disjoint {parent : Parent} {front xs : List Nat} {steps : List Document.Step}
    (ha : IsApproach g front) (hr : IsRun t g parent xs steps) (hx : x ∈ front) : x ∉ xs := by
  intro hx'
  obtain ⟨s, -, hn⟩ := hr.getElem?_of_mem hx'
  exact absurd (ha.noStep x hx _ hn) (by simp [stepNode, Node.traits?])

lemma Includes.isChain_append (h : Includes t d g) (hd : d.IsNumbered) (hj : j ∈ d.jobs)
    {front xs : List Nat} (ha : IsApproach g front) (hlast : x ∈ front.getLast?)
    (hx : g.nodes[x]? = some (jobNode d j)) (hr : IsRun t g (.ofJob d j) xs j.steps) :
    (front ++ xs).IsChain fun x y => y ∈ g.successors x := by
  refine List.isChain_append.mpr ⟨ha.consecutive, hr.isChain h hj, fun x' hx' y hy => ?_⟩
  obtain rfl := Option.mem_unique hlast hx'
  rw [Option.mem_def, List.head?_eq_getElem?] at hy
  obtain ⟨s, hs, hn⟩ := hr.getElem? hy
  exact h.firstStep_successor hj (List.mem_of_getElem? hs) (hd j hj 0 s hs) hx hn

lemma getLast?_take_succ {α : Type} {l : List α} {a : α} (h : l[i]? = some a) :
    (l.take (i + 1)).getLast? = some a := by
  rw [List.take_add_one, h]
  exact List.getLast?_concat

lemma dropLast_take_succ {α : Type} {l : List α} {a : α} (h : l[i]? = some a) :
    (l.take (i + 1)).dropLast = l.take i := by
  rw [List.take_add_one, h]
  exact List.dropLast_concat

lemma taggedPath_append_take_iff {parent : Parent} {front xs : List Nat}
    {steps : List Document.Step} {start : Nat} {tag : String} (ha : IsApproach g front)
    (hstart : front.head? = some start) (hr : IsRun t g parent xs (steps.take (i + 1)))
    (hs : steps[i]? = some s) (hchain : (front ++ xs).IsChain fun x y => y ∈ g.successors x)
    (hsimple : (front ++ xs).Nodup) :
    TaggedPath g start tag (front ++ xs) ↔
      IsPassable t (g.hasTag start labeledTrigger = true) (steps.take (i + 1)) ∧
        tag ∈ (stepNode t parent s).tags := by
  have hend := getLast?_take_succ hs
  have hne : xs ≠ [] := hr.ne_nil (List.mem_of_getLast? hend)
  rw [taggedPath_append_iff ha hstart hr hne hchain hsimple, hend]
  simp

/-- A run of the first steps of a job begins in the job. -/
lemma Includes.exists_head_mem_stepsOf (h : Includes t d g) (hj : j ∈ d.jobs)
    (hx : g.nodes[x]? = some (jobNode d j)) {xs : List Nat}
    (hr : IsRun t g (.ofJob d j) xs j.steps) (hs : j.steps[i]? = some s) :
    ∃ z ∈ (xs.take (i + 1)).head?, z ∈ g.stepsOf x := by
  have hfirst := (Nat.zero_le i).trans_lt (List.getElem?_eq_some_iff.mp hs).1
  obtain ⟨z, hz, hn⟩ := hr.exists_getElem? (List.getElem?_eq_getElem hfirst)
  refine ⟨z, ?_, h.mem_stepsOf hj (List.getElem_mem _) hx hn⟩
  rw [Option.mem_def, List.head?_take, if_neg (Nat.succ_ne_zero i), List.head?_eq_getElem?, hz]

/-- Behind an approach to a job the search comes to a step of the job just in case an outsider
does. -/
lemma Includes.taggedPath_iff (h : Includes t d g) (hd : d.IsNumbered) (hj : j ∈ d.jobs)
    {front xs : List Nat} {start : Nat} {tag : String} (ha : IsApproach g front)
    (hstart : front.head? = some start) (hlast : x ∈ front.getLast?)
    (hx : g.nodes[x]? = some (jobNode d j)) (hr : IsRun t g (.ofJob d j) xs j.steps)
    (hs : j.steps[i]? = some s) :
    TaggedPath g start tag (front ++ xs.take (i + 1)) ↔
      IsPassable t (g.hasTag start labeledTrigger = true) (j.steps.take (i + 1)) ∧
        tag ∈ (stepNode t (.ofJob d j) s).tags := by
  have hsplit : front ++ xs = (front ++ xs.take (i + 1)) ++ xs.drop (i + 1) := by
    rw [List.append_assoc, List.take_append_drop]
  have hchain := h.isChain_append hd hj ha hlast hx hr
  have hsimple : (front ++ xs).Nodup := by
    refine List.nodup_append'.mpr ⟨ha.simple, hr.nodup hd hj, ?_⟩
    exact fun x hx hx' => ha.disjoint hr hx hx'
  rw [hsplit] at hchain hsimple
  exact taggedPath_append_take_iff ha hstart (List.forall₂_take _ hr) hs hchain.left_of_append
    hsimple.of_append_left

end Graph

end WorkflowAudit
