import WorkflowAudit.Proofs.Audit.EnvironmentChanges

/-! The environment of a job and the steps of later jobs. The walk along a path binds the names of
every job in one table, which only a call empties, so that the environment of a job has a say in
whatever comes later on the path. -/

namespace WorkflowAudit

open WorkflowAudit.Graph (Node jobNode within)
open Source (Knowledge)

/-- A job hands the same on in two scopes: its recorded outputs, and the values for a workflow that
it calls. -/
structure Graph.Job.OffersSame (j : Graph.Job) (s s' : Scope) : Prop where
  outputs : ∀ e ∈ j.outputs,
    s'.at? (.output (Walk.outputName j e.1)) = s.at? (.output (Walk.outputName j e.1))
  inputs : ∀ e ∈ j.inputs, s'.taint e.2 = s.taint e.2

namespace Scope

variable {s s' : Scope} {j : Graph.Job} {bodies : List String} {ms : List Move}

/-- The moves of a job with an environment. -/
def behindJob (s : Scope) (j : Graph.Job) (env : Assoc String) : Scope :=
  s.performAll (Walk.bindAll env ++
    j.outputs.map fun e => .bindOutput (Walk.outputName j e.1) e.2)

lemma IsSettled.behindJob (h : s.IsSettled) (j : Graph.Job) (env : Assoc String) :
    (s.behindJob j env).IsSettled :=
  h.performAll _

/-- An environment binds nothing but its names, besides what the outputs make of it. -/
lemma at?_behindJob (h : s.IsSettled) (env : Assoc String) {x : Slot} (henv : ∀ n, x ≠ .env n)
    (hout : ∀ e ∈ j.outputs, x ≠ .output (Walk.outputName j e.1)) :
    (s.behindJob j env).at? x = s.at? x := by
  refine at?_performAll_of_frame h fun m hm => ?_
  rcases List.mem_append.mp hm with hm | hm
  · obtain ⟨e, -, rfl⟩ := List.mem_map.mp hm
    cases x with
    | env n => exact absurd rfl (henv n)
    | stepEnv _ | input _ | output _ => rfl
  · obtain ⟨e, he, rfl⟩ := List.mem_map.mp hm
    cases x with
    | output t =>
      have hne : t ≠ Walk.outputName j e.1 := fun h => hout e he (congrArg Slot.output h)
      exact if_neg hne
    | env _ | stepEnv _ | input _ => rfl

lemma at?_env_behindJob (h : s.IsSettled) (env : Assoc String) (name : String) :
    (s.behindJob j env).at? (.env name) = (s.performAll (Walk.bindAll env)).at? (.env name) := by
  rw [behindJob, Walk.performAll_append]
  refine at?_performAll_of_frame (h.performAll _) fun m hm => ?_
  obtain ⟨e, -, rfl⟩ := List.mem_map.mp hm
  rfl

/-- One more name at the end of an environment. -/
lemma at?_env_behindJob_concat (h : s.IsSettled) (env : Assoc String) (name value n : String) :
    (s.behindJob j (env ++ [(name, value)])).at? (.env n) =
      if n = name then some ((s.performAll (Walk.bindAll env)).taint value)
      else (s.behindJob j env).at? (.env n) := by
  rw [at?_env_behindJob h, at?_env_behindJob h, Walk.bindAll, List.map_append,
    Walk.performAll_append]
  have hbind := at?_perform (h.performAll (Walk.bindAll env)) (.bindEnv name value) (.env n)
  refine hbind.trans ?_
  rw [Move.content]
  split
  · rfl
  · rw [Content.eval, ask_cons, ask_nil, Option.or_none]

/-- Scopes behind a job that offers the same in both differ in names of the environment only. -/
lemma agreeOff_behindJob (h : s.IsSettled) {env env' : Assoc String}
    (ho : j.OffersSame (s.behindJob j env) (s.behindJob j env')) :
    AgreeOff (fun x => ∃ n, x = .env n ∧ (s.behindJob j env').at? x ≠ (s.behindJob j env).at? x)
      (s.behindJob j env) (s.behindJob j env') := by
  intro x hx
  by_contra hne
  by_cases henv : ∃ n, x = .env n
  · obtain ⟨n, rfl⟩ := henv
    exact hx ⟨n, rfl, Ne.symm hne⟩
  · by_cases hout : ∃ e ∈ j.outputs, x = .output (Walk.outputName j e.1)
    · obtain ⟨e, he, rfl⟩ := hout
      exact hne (ho.outputs e he).symm
    · push Not at henv hout
      exact hne ((at?_behindJob h env henv hout).trans (at?_behindJob h env' henv hout).symm)

/-- A script behind a job depends on the same contexts with another environment of the job if a call
comes next, or if what flows into the script has the same value. -/
lemma implicated_behindJob_eq (h : s.IsSettled) {env env' : Assoc String}
    (ho : j.OffersSame (s.behindJob j env) (s.behindJob j env'))
    (hflow : (∃ ms', ms = .enterCall j.inputs :: ms') ∨
      ∀ n, (s.behindJob j env).FlowsInto ms bodies (.env n) →
        (s.behindJob j env').at? (.env n) = (s.behindJob j env).at? (.env n)) :
    ((s.behindJob j env').performAll ms).implicated bodies =
      ((s.behindJob j env).performAll ms).implicated bodies := by
  have hs := h.behindJob j env
  have hs' := h.behindJob j env'
  have hagree := agreeOff_behindJob h ho
  symm
  rcases hflow with ⟨ms, rfl⟩ | hflow
  · have hcall := hagree.call hs hs' (fun x ⟨n, hx, _⟩ => .inl ⟨n, hx⟩) ho.inputs
    exact hcall.implicated_eq (hs.perform _) (hs'.perform _) fun _ hx => hx.elim
  · refine hagree.implicated_eq hs hs' ?_
    rintro _ ⟨n, rfl, hne⟩ hx
    exact hne (hflow n hx)

/-- Whether a name has a say in a script behind its job is decided by whether it flows into it. -/
lemma implicated_behindJob_concat_iff (h : s.IsSettled) {env : Assoc String} {name : String}
    (ho : ∀ value, j.OffersSame (s.behindJob j env) (s.behindJob j (env ++ [(name, value)]))) :
    (∀ value, ((s.behindJob j (env ++ [(name, value)])).performAll ms).implicated bodies =
        ((s.behindJob j env).performAll ms).implicated bodies) ↔
      ¬ (s.behindJob j env).FlowsInto ms bodies (.env name) := by
  have hsame (value n : String) (hn : n ≠ name) :
      (s.behindJob j (env ++ [(name, value)])).at? (.env n) = (s.behindJob j env).at? (.env n) :=
    (at?_env_behindJob_concat h env name value n).trans (if_neg hn)
  constructor
  · intro hall hflow
    obtain ⟨r, text, hfresh, htaint⟩ :=
      exists_fresh ((((s.behindJob j env).performAll ms).implicated bodies).map (·.token))
    have hheld : (s.behindJob j (env ++ [(name, text)])).at? (.env name) = some [r] := by
      rw [at?_env_behindJob_concat h, if_pos rfl, htaint]
    have hrest : ∀ y, y ≠ .env name →
        (s.behindJob j (env ++ [(name, text)])).at? y = (s.behindJob j env).at? y := by
      intro y hy
      refine (agreeOff_behindJob h (ho text) y ?_).symm
      rintro ⟨n, rfl, hne⟩
      exact hne (hsame text n fun hn => hy (congrArg Slot.env hn))
    exact implicated_ne_of_flowsInto (h.behindJob j _) (h.behindJob j _) hrest hheld hfresh hflow
      (hall text)
  · intro hflow value
    refine implicated_behindJob_eq h (ho value) (.inr fun n hn => hsame value n ?_)
    rintro rfl
    exact hflow hn

end Scope

namespace Audit

open Walk (scopeBehind movesAlong)

variable {k : Knowledge} {t : Classification.Tables} {d : Document} {j : Document.Job}
  {before after : List Operation} {front rest : List Nat} {x : Nat} {s : Graph.Step} {walk : Walk}

/-- A path goes on with a call. -/
def IsCall (g : Graph) (rest : List Nat) : Prop :=
  ∃ y ∈ rest.head?, ∃ w, g.nodes[y]? = some (.workflow w)

lemma movesAlong_of_isCall {g : Graph} {job : Graph.Job} (hx : g.nodes[x]? = some (.job job))
    (h : IsCall g rest) : ∃ ms, movesAlong g (some x) rest = .enterCall job.inputs :: ms := by
  obtain ⟨y, hy, w, hw⟩ := h
  obtain ⟨rest, rfl⟩ := List.head?_eq_some_iff.mp hy
  exact ⟨_, Walk.movesAlong_call hx hw rest⟩

lemma scopeBehind_withEnv_job {g : Graph} {job : Graph.Job} (hk : g.IsKeyed)
    (hx : g.nodes[x]? = some (.job job)) (hsimple : (front ++ x :: rest).Nodup)
    (env : Assoc String) :
    scopeBehind (g.withEnv (Node.job job).key env) (front ++ [x]) =
      (scopeBehind g front).behindJob job env := by
  have hnode : (Node.job job).withEnv (Node.job job).key env = .job { job with env := env } :=
    congrArg Node.job (if_pos rfl)
  rw [Walk.scopeBehind_withEnv hk hx hsimple, hnode]
  rfl

/-- The environment of a job has no say in the script of a later step if the path goes on from the
job with a call, or if no name with another value in it flows into the script. The names that do
flow into the script do have a say, unless they have one in what the job hands on. -/
theorem job_env_scoped (hj : j ∈ d.jobs)
    (hnew : (IndexedGraph.ofOperations before).toGraph.number? (jobNode d j).key = none)
    (hx : (within before after t d).nodes[x]? = some (jobNode d j))
    (hsimple : (front ++ x :: rest).Nodup)
    (hs : endStep? (within before after t d) (front ++ x :: rest) = some s)
    (hwalk : Walk.along k (within before after t d) (front ++ x :: rest) = some walk) :
    let g := within before after t d
    let changed := fun env => within before after t (d.withJobEnv j.name env)
    let contexts := fun g => implicatedAlong k g (front ++ x :: rest)
    let scope := fun g => scopeBehind g (front ++ [x])
    let offers := (Graph.Job.ofDocument (.ofDocument d) j).OffersSame
    let flows := fun name =>
      (scope g).FlowsInto (movesAlong g (some x) rest) s.traits.contexts (.env name)
    (∀ env, offers (scope g) (scope (changed env)) →
        (IsCall g rest ∨ ∀ name, flows name →
          (scope (changed env)).at? (.env name) = (scope g).at? (.env name)) →
        contexts (changed env) = contexts g) ∧
      ∀ name, (∀ value, offers (scope g) (scope (changed (j.env ++ [(name, value)])))) →
        ((∀ value, contexts (changed (j.env ++ [(name, value)])) = contexts g) ↔ ¬ flows name) := by
  intro g changed contexts scope offers flows
  have hk : g.IsKeyed := Graph.isKeyed_ofOperations _
  have hS : (scopeBehind g front).IsSettled := Walk.isSettled_scopeBehind g front
  have hchanged (env : Assoc String) : changed env = g.withEnv (jobNode d j).key env :=
    Graph.within_withJobEnv hj hnew after env
  have hscope : scope g = (scopeBehind g front).behindJob _ j.env :=
    Walk.scopeBehind_concat hx front
  have hscope' (env : Assoc String) :
      scope (changed env) = (scopeBehind g front).behindJob _ env :=
    hchanged env ▸ scopeBehind_withEnv_job hk hx hsimple env
  have hcontexts : contexts g = some (((scope g).performAll _).implicated s.traits.contexts) :=
    implicatedAlong_eq hs hwalk
  have hcontexts' (env : Assoc String) : contexts (changed env) =
      some (((scope (changed env)).performAll _).implicated s.traits.contexts) :=
    hchanged env ▸ implicatedAlong_withEnv hk hx hsimple hs hwalk env
  simp only [hcontexts, hcontexts', flows, hscope, hscope', Option.some.injEq]
  refine ⟨fun env ho hor => ?_, fun name ho => Scope.implicated_behindJob_concat_iff hS ho⟩
  exact Scope.implicated_behindJob_eq hS ho (hor.imp_left (movesAlong_of_isCall hx))

/-- A workflow whose second job reads a name that only its first job binds. -/
def borrowing : Document where
  repo := "o/r"
  ref := "HEAD"
  path := "ci.yml"
  content := some
    { isComposite := false
      name := none
      triggers := ["issues"]
      env := []
      jobs :=
        [⟨"first", none, [], [("NAME", "$\x7b\x7b github.head_ref \x7d\x7d")], [], [], none, none,
            none, none, none, []⟩,
          ⟨"second", none, ["first"], [], [], [], none, none, none, none, none,
            [⟨0, none, none, none, some "echo $\x7b\x7b env.NAME \x7d\x7d", [], [], none⟩]⟩] }

lemma borrowing_walk :
    ∃ j ∈ borrowing.jobs, ∃ s ∈ endStep? (within [] [] .default borrowing) [1, 2, 3, 4],
      (within [] [] .default borrowing).nodes[2]? = some (jobNode borrowing j) ∧
        j.outputs = [] ∧ j.inputs = [] ∧
        (Walk.along nothingKnown (within [] [] .default borrowing) [1, 2, 3, 4]).isSome = true ∧
        implicatedAlong nothingKnown (within [] [] .default borrowing) [1, 2, 3, 4] =
          some [⟨"github.head_ref", .env, some "env.NAME"⟩] ∧
        implicatedAlong nothingKnown (within [] [] .default (borrowing.withJobEnv j.name []))
          [1, 2, 3, 4] = some [] := by
  decide +kernel

lemma offersSame_of_nothing {j : Graph.Job} (hout : j.outputs = []) (hin : j.inputs = [])
    (s s' : Scope) : j.OffersSame s s' :=
  ⟨by simp [hout], by simp [hin]⟩

theorem borrowed_name_flows :
    let g := within [] [] .default borrowing
    ∃ j ∈ borrowing.jobs, ∃ s walk,
      (IndexedGraph.ofOperations []).toGraph.number? (jobNode borrowing j).key = none ∧
        g.nodes[2]? = some (jobNode borrowing j) ∧ ([1] ++ 2 :: [3, 4]).Nodup ∧
        endStep? g ([1] ++ 2 :: [3, 4]) = some s ∧
        Walk.along nothingKnown g ([1] ++ 2 :: [3, 4]) = some walk ∧
        ∃ name, (scopeBehind g [1, 2]).FlowsInto (movesAlong g (some 2) [3, 4]) s.traits.contexts
          (.env name) := by
  intro g
  obtain ⟨j, hj, s, hs, hx, hout, hin, hwalk, hcontexts, hchanged⟩ := borrowing_walk
  obtain ⟨walk, hwalk⟩ := Option.isSome_iff_exists.mp hwalk
  have hsimple : ([1] ++ 2 :: [3, 4]).Nodup := by decide
  refine ⟨j, hj, s, walk, rfl, hx, hsimple, hs, hwalk, ?_⟩
  have hscoped := (job_env_scoped hj rfl hx hsimple hs hwalk).1 []
    (offersSame_of_nothing hout hin _ _)
  by_contra hnone
  push Not at hnone
  have heq := hscoped (.inr fun name hflow => absurd hflow (hnone name))
  exact absurd (hchanged.symm.trans (heq.trans hcontexts)) (by simp)

/-- The first job hands nothing on, and with its environment taken away the script of the second one
depends on nothing of the outsider's. -/
theorem borrowed_name_leaks :
    ∃ j ∈ borrowing.jobs, j.outputs = [] ∧ j.inputs = [] ∧
      implicatedAlong nothingKnown (within [] [] .default borrowing) [1, 2, 3, 4] ≠
        implicatedAlong nothingKnown (within [] [] .default (borrowing.withJobEnv j.name []))
          [1, 2, 3, 4] := by
  obtain ⟨j, hj, -, -, -, hout, hin, -, hcontexts, hchanged⟩ := borrowing_walk
  refine ⟨j, hj, hout, hin, ?_⟩
  rw [hcontexts, hchanged]
  simp

end Audit

end WorkflowAudit
