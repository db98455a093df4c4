import WorkflowAudit.Proofs.Audit.AttackPaths
import WorkflowAudit.Proofs.Audit.Flows
import WorkflowAudit.Proofs.Graph.EdgeKinds

/-! What a called workflow sees of its caller. No environment of a step is pending when a path comes
to a job, so that behind a call only the values that the job hands over and the recorded outputs are
left of what was known before. -/

namespace WorkflowAudit

open WorkflowAudit.Graph (Kind Node IsSorted jobNode)
open Source (Knowledge)

namespace Walk

/-- A walk that has just visited a node. Whatever else it holds, the environment of the step is the
one that a way to the node leaves. -/
def HasVisited (k : Knowledge) (g : Graph) (x : Nat) (w : Walk) : Prop :=
  ∃ way : List Nat, (way ++ [x]).IsChain (fun i j => j ∈ g.successors i) ∧
    w.scope.stepEnv = ((places (way ++ [x])).foldl (enter k g) start).scope.stepEnv

/-- The walk goes on from a node to the first places of a path. -/
def goOn (k : Knowledge) (g : Graph) (w : Walk) (x : Nat) (path : List Nat) (n : Nat) : Walk :=
  ((placesFrom (some x) path).take n).foldl (enter k g) w

variable {k : Knowledge} {g : Graph} {w w' : Walk} {x y : Nat} {path : List Nat}
  {previous : Option Nat} {m : Move} {n : Node} {job : Graph.Job} {flow : Graph.Workflow}

lemma content_stepEnv_of_mem_movesInto {caller : Option Node} (hn : ¬ n.kind.IsBelowJobs)
    (hm : m ∈ movesInto caller n) (name : String) :
    m.content (.stepEnv name) = .asked [.stepEnv name] := by
  have hbind (env : Assoc String) (h : m ∈ bindAll env) :
      m.content (.stepEnv name) = .asked [.stepEnv name] := by
    obtain ⟨e, -, rfl⟩ := List.mem_map.mp h
    rfl
  cases n with
  | repo _ => cases hm
  | step s => exact absurd (.inl rfl) hn
  | action a => exact absurd (.inr rfl) hn
  | job j =>
    rcases List.mem_append.mp hm with hm | hm
    · exact hbind _ hm
    · obtain ⟨e, -, rfl⟩ := List.mem_map.mp hm
      rfl
  | workflow flow =>
    rcases List.mem_append.mp hm with hm | hm
    · split at hm
      · obtain rfl := List.mem_singleton.mp hm
        rfl
      · cases hm
    · exact hbind _ hm

lemma content_stepEnv_of_mem_movesAlong
    (h : ∀ i ∈ path, ∀ n, g.nodes[i]? = some n → ¬ n.kind.IsBelowJobs)
    (hm : m ∈ movesAlong g previous path) (name : String) :
    m.content (.stepEnv name) = .asked [.stepEnv name] := by
  induction path generalizing previous with
  | nil => cases hm
  | cons i path ih =>
    rcases List.mem_append.mp hm with hm | hm
    · rw [movesAt] at hm
      cases hn : g.nodes[i]? with
      | none => simp [hn] at hm
      | some n =>
        rw [hn] at hm
        exact content_stepEnv_of_mem_movesInto (h i List.mem_cons_self n hn) hm name
    · exact ih (fun j hj => h j (List.mem_cons_of_mem _ hj)) hm

/-- When a path comes to a job, no environment of a step is pending. -/
lemma HasVisited.stepEnv_eq_nil (h : w.HasVisited k g x) (hg : ∀ e ∈ g.edges, g.IsSorted e)
    (hx : g.nodes[x]? = some (.job job)) : w.scope.stepEnv = [] := by
  obtain ⟨way, hchain, hw⟩ := h
  have hbelow := Graph.not_isBelowJobs_of_chain hg hchain hx (by simp [Node.kind, Kind.IsBelowJobs])
  have hnone (name : String) : (scopeBehind g (way ++ [x])).at? (.stepEnv name) = none :=
    Scope.at?_performAll_of_frame Scope.isSettled_empty fun m hm =>
      content_stepEnv_of_mem_movesAlong hbelow hm name
  rw [hw, places, scope_foldl_enter]
  cases hl : (scopeBehind g (way ++ [x])).stepEnv with
  | nil => exact hl
  | cons e env =>
    have hbound := hnone e.1
    rw [Scope.at?, hl, Assoc.get?_cons, if_pos rfl] at hbound
    cases hbound

lemma scope_goOn (k : Knowledge) (g : Graph) (w : Walk) (x : Nat) (path : List Nat) (n : Nat) :
    (goOn k g w x path n).scope = w.scope.performAll (movesAlong g (some x) (path.take n)) := by
  rw [goOn]
  induction path generalizing w x n with
  | nil => simp [placesFrom, movesAlong, Scope.performAll]
  | cons i path ih =>
    cases n with
    | zero => rfl
    | succ n =>
      rw [placesFrom, List.take_succ_cons, List.foldl_cons, ih, scope_enter, List.take_succ_cons,
        movesAlong, performAll_append]

end Walk

namespace Scope

/-- The inputs of a called workflow are the values that the call hands over. -/
lemma IsSettled.at?_input_of_call {s : Scope} (hs : s.IsSettled) (inputs env : Assoc String)
    (name : String) :
    (((s.perform (.enterCall inputs)).performAll (Walk.bindAll env)).inputs.get? name) =
      (Assoc.last? name inputs).map s.taint := by
  have hframe : ((s.perform (.enterCall inputs)).performAll (Walk.bindAll env)).at? (.input name) =
      (s.perform (.enterCall inputs)).at? (.input name) := by
    refine at?_performAll_of_frame (hs.perform _) fun m hm => ?_
    obtain ⟨e, -, rfl⟩ := List.mem_map.mp hm
    rfl
  refine hframe.trans ((at?_perform hs _ _).trans ?_)
  rw [Move.content, Content.ofLast]
  cases Assoc.last? name inputs <;> rfl

end Scope

namespace Audit

variable {k : Knowledge} {w w' : Walk} {x y : Nat} {job : Graph.Job} {flow : Graph.Workflow}
  {os : List Operation}

/-- On every path that goes on from a job to a workflow, whatever is resolved at a later place is
the same for any environments and any inputs that the job has: it is decided by the outputs
recorded so far and by the taint of the values that the job hands over. These are the inputs of
the workflow. -/
theorem call_hides_caller (hos : ∀ o ∈ os, o.isConnect = false)
    (hx : (IndexedGraph.ofOperations os).toGraph.nodes[x]? = some (.job job))
    (hy : (IndexedGraph.ofOperations os).toGraph.nodes[y]? = some (.workflow flow))
    (hw : w.HasVisited k (IndexedGraph.ofOperations os).toGraph x)
    (hw' : w'.HasVisited k (IndexedGraph.ofOperations os).toGraph x)
    (hout : ∀ token, w.scope.outputs.get? token = w'.scope.outputs.get? token)
    (hin : ∀ e ∈ job.inputs, w.scope.taint e.2 = w'.scope.taint e.2) (rest : List Nat) :
    let later := fun (w : Walk) n =>
      w.goOn k (IndexedGraph.ofOperations os).toGraph x (y :: rest) (n + 1)
    (∀ n token, (later w n).scope.resolve token = (later w' n).scope.resolve token) ∧
      ∀ name, (later w 0).scope.inputs.get? name =
        (Assoc.last? name job.inputs).map w.scope.taint := by
  intro later
  have hsorted := Graph.edges_sorted hos
  set g := (IndexedGraph.ofOperations os).toGraph
  have hnil : w.scope.stepEnv = [] := hw.stepEnv_eq_nil hsorted hx
  have hnil' : w'.scope.stepEnv = [] := hw'.stepEnv_eq_nil hsorted hx
  have hs : w.scope.IsSettled := by simp [Scope.IsSettled, hnil]
  have hs' : w'.scope.IsSettled := by simp [Scope.IsSettled, hnil']
  have hagree : Scope.AgreeOff (fun z => (∃ name, z = .env name) ∨ ∃ name, z = .input name)
      w.scope w'.scope := by
    intro z hz
    cases z with
    | env name => exact absurd (.inl ⟨name, rfl⟩) hz
    | input name => exact absurd (.inr ⟨name, rfl⟩) hz
    | stepEnv name => rw [Scope.at?, Scope.at?, hnil, hnil']
    | output token => exact hout token
  have hcall := hagree.call hs hs' (fun _ hz => hz) fun e he => (hin e he).symm
  have hlater (w : Walk) (n : Nat) : (later w n).scope =
      (w.scope.perform (.enterCall job.inputs)).performAll
        (Walk.bindAll flow.env ++ Walk.movesAlong g (some y) (rest.take n)) := by
    rw [Walk.scope_goOn, List.take_succ_cons, Walk.movesAlong_call hx hy]
    rfl
  refine ⟨fun n token => ?_, fun name => ?_⟩
  · rw [hlater, hlater]
    exact hcall.resolve_eq (hs.perform _) (hs'.perform _) _ token
  · rw [hlater, List.take_zero, Walk.movesAlong, List.append_nil]
    exact hs.at?_input_of_call job.inputs flow.env name

/-- A workflow with one job, which calls another workflow of the repository. -/
def calling : Document where
  repo := "o/r"
  ref := "HEAD"
  path := "ci.yml"
  content := some
    { isComposite := false
      name := none
      triggers := ["issues"]
      env := []
      jobs :=
        [⟨"call", some "./.github/workflows/build.yml", [],
          [("NAME", "$\x7b\x7b github.head_ref \x7d\x7d")],
          [("TITLE", "$\x7b\x7b github.event.issue.title \x7d\x7d")], [], none, none, none, none,
          none, []⟩] }

def calledFor : Document where
  repo := "o/r"
  ref := "HEAD"
  path := ".github/workflows/build.yml"
  content := some
    { isComposite := false
      name := none
      triggers := ["workflow_call"]
      env := []
      jobs :=
        [⟨"build", none, [], [], [], [], none, none, none, none, none,
          [⟨0, none, none, none, some "echo $\x7b\x7b env.NAME \x7d\x7d", [], [], none⟩]⟩] }

def callOperations : List Operation :=
  [.addWorkflow .default calling, .addWorkflow .default calledFor]

/-- The walk to the job that calls, with an environment and inputs in place of its own. -/
def walkToCall (env inputs : Assoc Taint) : Walk :=
  let w := (Walk.places [1, 2]).foldl
    (Walk.enter nothingKnown (IndexedGraph.ofOperations callOperations).toGraph) .start
  { w with scope := { w.scope with env := env, inputs := inputs } }

lemma callOperations_walk :
    let g := (IndexedGraph.ofOperations callOperations).toGraph
    (∀ o ∈ callOperations, o.isConnect = false) ∧ 2 ∈ g.successors 1 ∧
      g.nodes[3]? = some (Graph.workflowNode calledFor) ∧
      ∃ j ∈ calling.jobs, g.nodes[2]? = some (jobNode calling j) ∧
        ∀ e ∈ j.inputs, (walkToCall [("NAME", ["github.head_ref"])] []).scope.taint e.2 =
          (walkToCall [] [("NAME", ["github.actor"])]).scope.taint e.2 := by
  decide +kernel

lemma hasVisited_walkToCall (env inputs : Assoc Taint) :
    (walkToCall env inputs).HasVisited nothingKnown
      (IndexedGraph.ofOperations callOperations).toGraph 2 :=
  ⟨[1], List.isChain_pair.mpr callOperations_walk.2.1, rfl⟩

/-- Whatever stands in the environment of the job that calls, and among its inputs, at the step of
the workflow that is called nothing is known of a name in them. -/
theorem call_hides_name :
    let g := (IndexedGraph.ofOperations callOperations).toGraph
    let w := walkToCall [("NAME", ["github.head_ref"])] []
    let w' := walkToCall [] [("NAME", ["github.actor"])]
    ∃ job flow, (∀ o ∈ callOperations, o.isConnect = false) ∧
      g.nodes[2]? = some (.job job) ∧ g.nodes[3]? = some (.workflow flow) ∧
      w.HasVisited nothingKnown g 2 ∧ w'.HasVisited nothingKnown g 2 ∧
      (∀ token, w.scope.outputs.get? token = w'.scope.outputs.get? token) ∧
      (∀ e ∈ job.inputs, w.scope.taint e.2 = w'.scope.taint e.2) ∧
      w.scope.resolve "env.NAME" ≠ w'.scope.resolve "env.NAME" ∧
      ∀ token, (w.goOn nothingKnown g 2 [3, 4, 5] 3).scope.resolve token =
        (w'.goOn nothingKnown g 2 [3, 4, 5] 3).scope.resolve token := by
  intro g w w'
  obtain ⟨hos, -, hy, j, -, hx, hin⟩ := callOperations_walk
  have hw : w.HasVisited nothingKnown g 2 := hasVisited_walkToCall _ _
  have hw' : w'.HasVisited nothingKnown g 2 := hasVisited_walkToCall _ _
  have hdiffers : w.scope.resolve "env.NAME" ≠ w'.scope.resolve "env.NAME" := by decide +kernel
  have hhides := call_hides_caller hos hx hy hw hw' (fun _ => rfl) hin [4, 5]
  exact ⟨_, _, hos, hx, hy, hw, hw', fun _ => rfl, hin, hdiffers, hhides.1 2⟩

end Audit

end WorkflowAudit
