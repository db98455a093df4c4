import Mathlib.Data.List.Basic
import WorkflowAudit.Audit.Walk

/-! What a walk says of its path, without the walk: the gates that stand on the path and the last
job of it. -/

namespace WorkflowAudit

namespace Graph

def jobAt? (g : Graph) (i : Nat) : Option Job :=
  match g.nodes[i]? with
  | some (.job j) => some j
  | _ => none

def isSoftGateAt (g : Graph) (i : Nat) : Bool := g.nodes[i]?.any (·.traits?.any (·.softGate))

end Graph

namespace Walk

open WorkflowAudit.Graph (Node)
open Source (Knowledge)

variable (k : Knowledge) (g : Graph)

/-- Whether an approval or a check of permissions at a place guards what comes after it. -/
def isGuard (p : Place) : Bool :=
  (g.jobAt? p.current).any fun j =>
    j.environment.any (k.isProtected j.repo) || leavesBehind g p "permission_check"

lemma enter_approvalGate (w : Walk) (p : Place) :
    (enter k g w p).approvalGate = (w.approvalGate || isGuard k g p) := by
  rw [enter, isGuard, Graph.jobAt?]
  cases h : g.nodes[p.current]? with
  | none => simp
  | some n =>
    cases n with
    | job j => simp [enterJob, Bool.or_assoc]
    | action a => simp only [enterAction]; split <;> simp
    | _ => simp [enterWorkflow, enterStep]

lemma enter_softGated (w : Walk) (p : Place) :
    (enter k g w p).softGated = (w.softGated || g.isSoftGateAt p.current) := by
  rw [enter, Graph.isSoftGateAt]
  cases h : g.nodes[p.current]? with
  | none => simp
  | some n =>
    cases n with
    | step s => simp [enterStep, Node.traits?]
    | action a => simp only [enterAction]; split <;> simp [Node.traits?]
    | _ => simp [enterWorkflow, enterJob, Node.traits?]

lemma enter_job (w : Walk) (p : Place) :
    (enter k g w p).job = if (g.jobAt? p.current).isSome then some p.current else w.job := by
  rw [enter, Graph.jobAt?]
  cases h : g.nodes[p.current]? with
  | none => simp
  | some n =>
    cases n with
    | job j => simp [enterJob]
    | action a => simp only [enterAction]; split <;> simp
    | _ => simp [enterWorkflow, enterStep]

lemma foldl_approvalGate (ps : List Place) (w : Walk) :
    (ps.foldl (enter k g) w).approvalGate = (w.approvalGate || ps.any (isGuard k g)) := by
  induction ps generalizing w with
  | nil => simp
  | cons p ps ih => rw [List.foldl_cons, ih, enter_approvalGate, List.any_cons, Bool.or_assoc]

lemma foldl_softGated (ps : List Place) (w : Walk) :
    (ps.foldl (enter k g) w).softGated =
      (w.softGated || ps.any fun p => g.isSoftGateAt p.current) := by
  induction ps generalizing w with
  | nil => simp
  | cons p ps ih => rw [List.foldl_cons, ih, enter_softGated, List.any_cons, Bool.or_assoc]

lemma foldl_job (ps : List Place) (w : Walk) :
    (ps.foldl (enter k g) w).job =
      ((ps.map (·.current)).filter fun i => (g.jobAt? i).isSome).getLast?.or w.job := by
  induction ps generalizing w with
  | nil => rfl
  | cons p ps ih =>
    rw [List.foldl_cons, ih, enter_job, List.map_cons, List.filter_cons]
    split
    · rw [List.getLast?_cons]
      cases ((ps.map (·.current)).filter fun i => (g.jobAt? i).isSome).getLast? <;> rfl
    · rfl

lemma map_current_placesFrom (previous : Option Nat) (path : List Nat) :
    (placesFrom previous path).map (·.current) = path := by
  induction path generalizing previous with
  | nil => rfl
  | cons i rest ih => rw [placesFrom, List.map_cons, ih]

lemma map_current_places (path : List Nat) : (places path).map (·.current) = path :=
  map_current_placesFrom none path

lemma current_mem_of_mem_placesFrom {previous : Option Nat} {path : List Nat} {p : Place}
    (h : p ∈ placesFrom previous path) : p.current ∈ path := by
  rw [← map_current_placesFrom previous path]
  exact List.mem_map.mpr ⟨p, h, rfl⟩

lemma mem_placesFrom_append {previous : Option Nat} {q xs : List Nat} {x : Nat} {p : Place}
    (h : p ∈ placesFrom previous (q ++ x :: xs)) :
    p.current ∈ q ∨ p.current = x ∧ p.following = xs.head? ∨ p.current ∈ xs := by
  induction q generalizing previous with
  | nil =>
    rcases List.mem_cons.mp h with rfl | h
    · exact Or.inr (Or.inl ⟨rfl, rfl⟩)
    · exact Or.inr (Or.inr (current_mem_of_mem_placesFrom h))
  | cons z q ih =>
    rcases List.mem_cons.mp h with rfl | h
    · exact Or.inl List.mem_cons_self
    · exact (ih h).imp_left (List.mem_cons_of_mem _)

/-- What holds at each place of a path holds between each node and the next one. -/
lemma isChain_of_placesFrom {R : Nat → Nat → Prop} {previous : Option Nat} {path : List Nat}
    (h : ∀ p ∈ placesFrom previous path, ∀ y ∈ p.following, R p.current y) : path.IsChain R := by
  induction path generalizing previous with
  | nil => exact .nil
  | cons x rest ih =>
    have hrest := ih fun p hp => h p (List.mem_cons_of_mem _ hp)
    cases rest with
    | nil => exact .singleton x
    | cons y rest => exact .cons_cons (h _ List.mem_cons_self y rfl) hrest

lemma exists_place {path : List Nat} {i : Nat} (h : i ∈ path) :
    ∃ p ∈ places path, p.current = i := by
  rw [← map_current_places path] at h
  exact List.mem_map.mp h

lemma places_cons (i : Nat) (rest : List Nat) :
    places (i :: rest) = ⟨true, none, i, rest.head?⟩ :: placesFrom (some i) rest := rfl

variable {k g} {path : List Nat} {walk : Walk}

lemma along_eq_some_iff :
    along k g path = some walk ↔
      (∀ p ∈ places path, isRuledOut k g p = false) ∧
        walk = (places path).foldl (enter k g) start := by
  rw [along]
  split
  · next h =>
    obtain ⟨p, hp, hr⟩ := List.any_eq_true.mp h
    simp only [reduceCtorEq, false_iff, not_and]
    intro ha
    rw [ha p hp] at hr
    exact absurd hr Bool.false_ne_true
  · next h =>
    have ha : ∀ p ∈ places path, isRuledOut k g p = false := by simpa using h
    rw [Option.some.injEq, and_iff_right ha, eq_comm]

lemma approvalGate_of_along (h : along k g path = some walk) :
    walk.approvalGate = (places path).any (isGuard k g) := by
  rw [(along_eq_some_iff.mp h).2, foldl_approvalGate]
  rfl

lemma softGated_of_along (h : along k g path = some walk) :
    walk.softGated = path.any g.isSoftGateAt := by
  rw [(along_eq_some_iff.mp h).2, foldl_softGated]
  conv_rhs => rw [← map_current_places path, List.any_map]
  rfl

lemma job_of_along (h : along k g path = some walk) :
    walk.job = (path.filter fun i => (g.jobAt? i).isSome).getLast? := by
  rw [(along_eq_some_iff.mp h).2, foldl_job, map_current_places]
  exact Option.or_none

/-- An open walk passes no job that deploys to a protected environment. -/
lemma not_isProtected_of_along (h : along k g path = some walk) (hopen : walk.approvalGate = false)
    {i : Nat} (hi : i ∈ path) {j : Graph.Job} (hj : g.nodes[i]? = some (.job j)) {e : String}
    (he : e ∈ j.environment) : k.isProtected j.repo e = false := by
  rw [approvalGate_of_along h, List.any_eq_false] at hopen
  obtain ⟨p, hp, rfl⟩ := exists_place hi
  have hg := hopen p hp
  rw [isGuard, Graph.jobAt?, hj, Option.any_some, Option.mem_def.mp he, Option.any_some,
    Bool.or_eq_true, not_or, Bool.not_eq_true] at hg
  exact hg.1

/-- The repository of the workflow that a walk starts at is no fork. -/
lemma isFork_of_along (h : along k g path = some walk) {i : Nat} (hi : path.head? = some i)
    {w : Graph.Workflow} (hw : g.nodes[i]? = some (.workflow w)) : k.isFork w.repo = false := by
  obtain ⟨rest, rfl⟩ := List.head?_eq_some_iff.mp hi
  have hr := (along_eq_some_iff.mp h).1 _ (by rw [places_cons]; exact List.mem_cons_self)
  simpa [isRuledOut, hw] using hr

/-- The finding along a path from a workflow to a step. -/
def report (g : Graph) (path : List Nat) (walk : Walk) (c : Confidence) (details : Details)
    (w : Graph.Workflow) (s : Graph.Step) : Finding where
  repo := w.repo
  workflow := w.path
  job := (walk.job.bind g.jobAt?).map (·.job)
  step := s.label
  stepName := s.name
  triggers := w.triggers
  confidence := c
  selfHosted := (walk.job.bind g.jobAt?).any (·.selfHosted)
  path := path.filterMap fun i => g.nodes[i]?.map (·.key)
  details := details

lemma finding?_eq_some_iff {c : Confidence} {details : Details} {f : Finding} :
    finding? g path walk c details = some f ↔
      ∃ w s, nodeAt g path.head? = some (.workflow w) ∧ nodeAt g path.getLast? = some (.step s) ∧
        f = report g path walk c details w s := by
  have hjob : walk.job.bind g.jobAt? = match nodeAt g walk.job with
      | some (.job j) => some j
      | _ => none := by
    cases walk.job <;> rfl
  simp only [finding?, report, hjob]
  split
  · next w s hw hs =>
    rw [hw, hs]
    constructor
    · rintro h
      exact ⟨w, s, rfl, rfl, (Option.some.inj h).symm⟩
    · rintro ⟨_, _, ⟨⟩, ⟨⟩, rfl⟩
      rfl
  · next h =>
    simp only [reduceCtorEq, false_iff, not_exists, not_and]
    intro w s hw hs
    exact absurd hs (h w s hw)

lemma find?_isSome_bind {α β : Type} (f : α → Option β) (l : List α) :
    (l.find? fun a => (f a).isSome).bind f = l.findSome? f := by
  induction l with
  | nil => rfl
  | cons a l ih => cases h : f a <;> simp [h, ih]

lemma job_report (h : along k g path = some walk) (c : Confidence) (details : Details)
    (w : Graph.Workflow) (s : Graph.Step) :
    (report g path walk c details w s).job = (path.filterMap g.jobAt?).getLast?.map (·.job) := by
  simp [report, job_of_along h, find?_isSome_bind]

end Walk

end WorkflowAudit
