import WorkflowAudit.Audit.PwnRequest
import WorkflowAudit.Proofs.Audit.Walks
import WorkflowAudit.Proofs.Graph.TaggedPaths
import WorkflowAudit.Source.Layered

/-! The finding that each of the two finders draws from a single path: when there is one, and what
it says. -/

namespace WorkflowAudit

namespace Graph

variable {g : Graph}

lemma mem_tagged_iff {tags : List String} {i : Nat} :
    i ∈ g.tagged tags ↔ ∃ tag ∈ tags, g.hasTag i tag = true := by
  rw [tagged, List.mem_filter, List.any_eq_true, List.mem_range, and_iff_right_iff_imp]
  rintro ⟨tag, -, h⟩
  obtain ⟨n, hn, -⟩ := (Option.any_eq_true _ _).mp h
  exact (List.getElem?_eq_some_iff.mp hn).1

lemma isSoftGateAt_iff {i : Nat} : g.isSoftGateAt i = true ↔ g.IsSoftGate i :=
  Option.any_eq_true _ _

end Graph

namespace Audit

open Source (Knowledge)
open WorkflowAudit.Graph (mem_tagged_iff mem_paths_iff isSoftGateAt_iff)

/-- What is known without any answers: of no fork and of no protected environment. -/
def nothingKnown : Knowledge := Source.Cache.empty.knowledge Source.LocalFiles.empty.toSource

/-- A path that the search finds from a workflow with one of some triggers to a step, and that the
walk does not rule out. -/
structure AttackPath (k : Knowledge) (g : Graph) (triggers : List String) (tag : String)
    (path : List Nat) (w : Graph.Workflow) (s : Graph.Step) (walk : Walk) : Prop where
  entry : ∃ i ∈ g.tagged triggers, g.nodes[i]? = some (.workflow w) ∧ path ∈ g.paths i tag
  ends : endStep? g path = some s
  walked : Walk.along k g path = some walk

/-- The outsider's contexts that the script of a step depends on behind a walk. -/
def implicatedBehind (walk : Walk) (s : Graph.Step) : List Implicated :=
  walk.scope.implicated s.traits.contexts

/-- The injection that a path gives. -/
structure InjectionBy (k : Knowledge) (g : Graph) (path : List Nat) (w : Graph.Workflow)
    (s : Graph.Step) (walk : Walk) (f : Finding) : Prop
    extends AttackPath k g injectionTriggers "injectable" path w s walk where
  ungated : walk.approvalGate = false
  implicates : implicatedBehind walk s ≠ []
  finding : f = walk.report g path (injectionConfidence (implicatedBehind walk s))
    (.injection (implicatedBehind walk s)) w s

/-- Nobody looks at what a path runs. -/
structure IsUngated (g : Graph) (path : List Nat) (walk : Walk) : Prop where
  noApproval : walk.approvalGate = false
  noSoftGate : ¬ g.HasSoftGate path
  notLabeled : ∀ i ∈ path.head?, g.hasTag i Graph.labeledTrigger = false

/-- The pwn request that a path gives. -/
structure PwnRequestBy (k : Knowledge) (g : Graph) (path : List Nat) (w : Graph.Workflow)
    (s : Graph.Step) (walk : Walk) (f : Finding) : Prop
    extends AttackPath k g pwnRequestTriggers "checkout" path w s walk where
  passes : IsUngated g path walk ∨ s.traits.mutableRef = true
  finding : ∃ checkout ∈ path.getLast?, f = walk.report g path
    (if (sinkAfter g checkout).isSome then .high else .medium)
    (.pwnRequest (s.traits.checkoutRef.getD "") s.traits.mutableRef (sinkAfter g checkout)
      (isGated g path walk)) w s

variable {k : Knowledge} {g : Graph} {triggers : List String} {tag : String} {path : List Nat}
  {w : Graph.Workflow} {s : Graph.Step} {walk : Walk} {f : Finding}

lemma endStep?_eq_some_iff :
    endStep? g path = some s ↔ Walk.nodeAt g path.getLast? = some (.step s) := by
  rw [endStep?]
  split
  · next s' h => rw [h, Option.some.injEq, Option.some.injEq, Graph.Node.step.injEq]
  · next h =>
    simp only [reduceCtorEq, false_iff]
    exact fun hs => h s hs

lemma finding?_eq_some_iff_of_endStep? (hs : endStep? g path = some s) {c : Confidence}
    {details : Details} :
    walk.finding? g path c details = some f ↔
      ∃ w, Walk.nodeAt g path.head? = some (.workflow w) ∧
        f = walk.report g path c details w s := by
  rw [endStep?_eq_some_iff] at hs
  rw [Walk.finding?_eq_some_iff]
  constructor
  · rintro ⟨w, s', hw, hs', rfl⟩
    obtain rfl : s = s' := by simpa using hs.symm.trans hs'
    exact ⟨w, hw, rfl⟩
  · rintro ⟨w, hw, rfl⟩
    exact ⟨w, s, hw, hs, rfl⟩

lemma mem_stepPaths_iff :
    path ∈ stepPaths g triggers tag ↔
      (∃ i ∈ g.tagged triggers, path ∈ g.paths i tag) ∧ ∃ s, endStep? g path = some s := by
  rw [stepPaths, List.mem_filter, List.mem_flatMap, Option.isSome_iff_exists]

lemma nodeAt_head?_of_mem_paths {i : Nat} (h : path ∈ g.paths i tag) :
    Walk.nodeAt g path.head? = g.nodes[i]? := by
  rw [Walk.nodeAt, (mem_paths_iff.mp h).begins, Option.bind_some]

lemma AttackPath.taggedPath (h : AttackPath k g triggers tag path w s walk) :
    ∃ i, g.nodes[i]? = some (.workflow w) ∧ (∃ t ∈ triggers, g.hasTag i t = true) ∧
      Graph.TaggedPath g i tag path := by
  obtain ⟨i, hi, hw, hp⟩ := h.entry
  exact ⟨i, hw, mem_tagged_iff.mp hi, mem_paths_iff.mp hp⟩

lemma AttackPath.last (h : AttackPath k g triggers tag path w s walk) :
    ∃ i ∈ path.getLast?, g.nodes[i]? = some (.step s) := by
  have hs := endStep?_eq_some_iff.mp h.ends
  rw [Walk.nodeAt, Option.bind_eq_some_iff] at hs
  exact hs

/-- A path gives findings only as an attack path. -/
lemma attackPath_iff :
    path ∈ stepPaths g triggers tag ∧ Walk.nodeAt g path.head? = some (.workflow w) ∧
      endStep? g path = some s ∧ Walk.along k g path = some walk ↔
        AttackPath k g triggers tag path w s walk := by
  constructor
  · rintro ⟨hp, hw, hs, hwalk⟩
    obtain ⟨⟨i, hi, hpath⟩, -⟩ := mem_stepPaths_iff.mp hp
    exact ⟨⟨i, hi, (nodeAt_head?_of_mem_paths hpath).symm.trans hw, hpath⟩, hs, hwalk⟩
  · rintro ⟨⟨i, hi, hw, hpath⟩, hs, hwalk⟩
    exact ⟨mem_stepPaths_iff.mpr ⟨⟨i, hi, hpath⟩, s, hs⟩,
      (nodeAt_head?_of_mem_paths hpath).trans hw, hs, hwalk⟩

lemma injectionConfidence_eq_high_iff (contexts : List Implicated) :
    injectionConfidence contexts = .high ↔ ∃ i ∈ contexts, i.origin = .direct := by
  rw [injectionConfidence]
  split
  · next h => simpa using h
  · next h => simpa using h

lemma injectionAlong_eq_some_iff :
    path ∈ injectionPaths g ∧ injectionAlong k g path = some f ↔
      ∃ w s walk, InjectionBy k g path w s walk f := by
  rw [injectionAlong]
  constructor
  · rintro ⟨hp, h⟩
    split at h
    · next s walk hs hwalk =>
      dsimp only at h
      split at h
      · exact absurd h (by simp)
      · next hgate =>
        simp only [Bool.or_eq_true, List.isEmpty_iff, not_or, Bool.not_eq_true] at hgate
        obtain ⟨w, hw, rfl⟩ := (finding?_eq_some_iff_of_endStep? hs).mp h
        exact ⟨w, s, walk, ⟨attackPath_iff.mp ⟨hp, hw, hs, hwalk⟩, hgate.1, hgate.2, rfl⟩⟩
    · exact absurd h (by simp)
  · rintro ⟨w, s, walk, ⟨hattack, hgate, himp, rfl⟩⟩
    obtain ⟨hp, hw, hs, hwalk⟩ := attackPath_iff.mpr hattack
    refine ⟨hp, ?_⟩
    rw [implicatedBehind] at himp
    simp only [hs, hwalk, hgate, Bool.false_or, List.isEmpty_iff, himp, if_false]
    exact (finding?_eq_some_iff_of_endStep? hs).mpr ⟨w, hw, rfl⟩

lemma isGated_eq_false_iff (h : Walk.along k g path = some walk) :
    isGated g path walk = false ↔ IsUngated g path walk := by
  have hsoft : walk.softGated = false ↔ ¬ g.HasSoftGate path := by
    rw [Walk.softGated_of_along h, List.any_eq_false, Graph.HasSoftGate]
    simp only [isSoftGateAt_iff, not_exists, not_and]
  have hlabeled : isLabeled g path = false ↔
      ∀ i ∈ path.head?, g.hasTag i Graph.labeledTrigger = false := by
    cases hh : path.head? <;> simp [isLabeled, hh]
  rw [isGated, Bool.or_eq_false_iff, Bool.or_eq_false_iff, hsoft, hlabeled]
  constructor
  · rintro ⟨⟨happroval, hsoft⟩, hlabeled⟩
    exact ⟨happroval, hsoft, hlabeled⟩
  · rintro ⟨happroval, hsoft, hlabeled⟩
    exact ⟨⟨happroval, hsoft⟩, hlabeled⟩

lemma pwnRequestAlong_eq_some_iff :
    path ∈ pwnRequestPaths g ∧ pwnRequestAlong k g path = some f ↔
      ∃ w s walk, PwnRequestBy k g path w s walk f := by
  rw [pwnRequestAlong]
  constructor
  · rintro ⟨hp, h⟩
    split at h
    · next checkout s walk hlast hs hwalk =>
      dsimp only at h
      split at h
      · exact absurd h (by simp)
      · next hgate =>
        obtain ⟨w, hw, rfl⟩ := (finding?_eq_some_iff_of_endStep? hs).mp h
        refine ⟨w, s, walk, ⟨attackPath_iff.mp ⟨hp, hw, hs, hwalk⟩, ?_, checkout, hlast, rfl⟩⟩
        rw [← isGated_eq_false_iff hwalk]
        cases hg : isGated g path walk <;> simp_all
    · exact absurd h (by simp)
  · rintro ⟨w, s, walk, ⟨hattack, hpasses, checkout, hlast, rfl⟩⟩
    obtain ⟨hp, hw, hs, hwalk⟩ := attackPath_iff.mpr hattack
    refine ⟨hp, ?_⟩
    rw [← isGated_eq_false_iff hwalk] at hpasses
    have hgate : (isGated g path walk && !s.traits.mutableRef) = false := by
      rcases hpasses with hg | hm <;> simp [*]
    simp only [Option.mem_def.mp hlast, hs, hwalk, hgate, Bool.false_eq_true, if_false]
    exact (finding?_eq_some_iff_of_endStep? hs).mpr ⟨w, hw, rfl⟩

lemma kind_of_finding? {c : Confidence} {details : Details}
    (h : walk.finding? g path c details = some f) : f.kind = details.kind := by
  obtain ⟨w, s, -, -, rfl⟩ := Walk.finding?_eq_some_iff.mp h
  rfl

lemma kind_of_injectionAlong (h : injectionAlong k g path = some f) :
    f.kind = "injection" := by
  rw [injectionAlong] at h
  split at h
  · dsimp only at h
    split at h
    · exact absurd h (by simp)
    · exact kind_of_finding? h
  · exact absurd h (by simp)

lemma kind_of_pwnRequestAlong (h : pwnRequestAlong k g path = some f) :
    f.kind = "pwn_request" := by
  rw [pwnRequestAlong] at h
  split at h
  · dsimp only at h
    split at h
    · exact absurd h (by simp)
    · exact kind_of_finding? h
  · exact absurd h (by simp)

end Audit

end WorkflowAudit
