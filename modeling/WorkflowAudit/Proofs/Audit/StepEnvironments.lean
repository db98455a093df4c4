import WorkflowAudit.Proofs.Audit.EnvironmentChanges
import WorkflowAudit.Proofs.Graph.DocumentPaths
import WorkflowAudit.Proofs.Text.Parts

/-! The environment of a step and the later steps of its job. The values in the environment of a
step are resolved while that of the step before it still stands, so that they can hand on what they
find there. -/

namespace WorkflowAudit

open WorkflowAudit.Graph (Node Parent IsRun stepNode within)
open Source (Knowledge)

/-- The bodies mention a name of the environment. -/
def Context.MentionsEnv (bodies : List String) (name : String) : Prop :=
  ∃ body ∈ bodies, "env." ++ name ∈ tokens body

/-- From step to step a name of the environment comes to stand under another name: each step has a
value that mentions the name before. -/
def HandsOn : List Document.Step → String → String → Prop
  | [], a, b => a = b
  | s :: rest, a, b => ∃ c value, Assoc.last? c s.env = some value ∧
      Context.MentionsEnv (Context.bodies value) a ∧ HandsOn rest c b

lemma Context.isStatic_env (name : String) : Classification.isStatic ("env." ++ name) = false := by
  have hfirst : ∀ p ∈ Classification.staticPatterns, ∃ q ∈ p.components.head?,
      (q == "*") = false ∧ Text.sameIgnoringCase q "env" = false := by
    decide +kernel
  have hsplit : Text.split '.' ("env." ++ name) =
      "env" :: (Text.splitChars '.' name.toList).map String.ofList := by
    rw [Text.split, String.toList_append]
    rfl
  exact isStatic_eq_false hsplit hfirst

namespace Scope

variable {s : Scope} {bodies : List String} {token name : String}

lemma slotsOf_env (name : String) : slotsOf ("env." ++ name) = [.stepEnv name, .env name] := by
  rw [slotsOf, Context.isStatic_env, Text.dropFront_eq_some_iff.mpr rfl]
  rfl

/-- The environment of the step is asked by the tokens that name it, before anything else. -/
lemma asks_stepEnv_iff : s.Asks (slotsOf token) (.stepEnv name) ↔ token = "env." ++ name := by
  constructor
  · intro h
    rw [slotsOf] at h
    split at h
    · exact h.elim
    · split at h
      · next name' hname' =>
        obtain rfl : name = name' := by simpa [Asks] using h
        exact Text.dropFront_eq_some_iff.mp hname'
      · split at h
        · simp [Asks] at h
        · split at h <;> simp [Asks] at h
  · rintro rfl
    rw [slotsOf_env]
    exact .inl rfl

lemma reads_stepEnv_iff : s.Reads bodies (.stepEnv name) ↔ Context.MentionsEnv bodies name := by
  simp only [Reads, asks_stepEnv_iff, Context.MentionsEnv]
  constructor
  · rintro ⟨body, hbody, token, htoken, rfl⟩
    exact ⟨body, hbody, htoken⟩
  · rintro ⟨body, hbody, htoken⟩
    exact ⟨body, hbody, _, htoken, rfl⟩

/-- The moves of steps in a row. -/
def enterSteps (steps : List Document.Step) : List Move := steps.map fun s => .enterStep s.env

variable {steps : List Document.Step} {a : String} {z : Slot}

/-- On entering a step a name of the environment before it has a say in the values that mention
it, and in nothing else. -/
lemma hasSay_enterStep_iff {env : Assoc String} {y : Slot} :
    s.HasSay ((Move.enterStep env).content y) (.stepEnv a) ↔
      ∃ c value, y = .stepEnv c ∧ Assoc.last? c env = some value ∧
        Context.MentionsEnv (Context.bodies value) a := by
  cases y with
  | stepEnv c =>
    rw [Move.content, Content.ofLast]
    cases hlast : Assoc.last? c env with
    | none => simp [HasSay, Asks, hlast]
    | some value => simp [HasSay, reads_stepEnv_iff, hlast]
  | env _ | input _ | output _ => simp [Move.content, HasSay, Asks]

lemma reaches_enterSteps_iff :
    s.Reaches (enterSteps steps) (.stepEnv a) z ↔ ∃ b, z = .stepEnv b ∧ HandsOn steps a b := by
  induction steps generalizing s a with
  | nil =>
    constructor
    · rintro rfl
      exact ⟨a, rfl, rfl⟩
    · rintro ⟨_, rfl, rfl⟩
      rfl
  | cons step steps ih =>
    constructor
    · rintro ⟨y, hsay, hreach⟩
      obtain ⟨c, value, rfl, hvalue, hmentions⟩ := hasSay_enterStep_iff.mp hsay
      obtain ⟨b, rfl, hhands⟩ := ih.mp hreach
      exact ⟨b, rfl, c, value, hvalue, hmentions, hhands⟩
    · rintro ⟨b, rfl, c, value, hvalue, hmentions, hhands⟩
      exact ⟨.stepEnv c, hasSay_enterStep_iff.mpr ⟨c, value, rfl, hvalue, hmentions⟩,
        ih.mpr ⟨b, rfl, hhands⟩⟩

lemma flowsInto_enterSteps_iff :
    s.FlowsInto (enterSteps steps) bodies (.stepEnv a) ↔
      ∃ b, HandsOn steps a b ∧ Context.MentionsEnv bodies b := by
  simp only [FlowsInto, reaches_enterSteps_iff]
  constructor
  · rintro ⟨_, ⟨b, rfl, hhands⟩, hreads⟩
    exact ⟨b, hhands, reads_stepEnv_iff.mp hreads⟩
  · rintro ⟨b, hhands, hmentions⟩
    exact ⟨.stepEnv b, ⟨b, rfl, hhands⟩, reads_stepEnv_iff.mpr hmentions⟩

lemma at?_stepEnv_enterStep (h : s.IsSettled) (env : Assoc String) (name : String) :
    (s.perform (.enterStep env)).at? (.stepEnv name) =
      (Assoc.last? name env).map s.taint := by
  rw [at?_perform h, Move.content, Content.ofLast]
  cases Assoc.last? name env <;> rfl

lemma at?_enterStep_of_ne (h : s.IsSettled) (env : Assoc String) {x : Slot}
    (hx : ∀ name, x ≠ .stepEnv name) : (s.perform (.enterStep env)).at? x = s.at? x := by
  have hframe : ∀ m ∈ [Move.enterStep env], m.content x = .asked [x] := by
    intro m hm
    obtain rfl := List.mem_singleton.mp hm
    cases x with
    | stepEnv name => exact absurd rfl (hx name)
    | env _ | input _ | output _ => rfl
  exact at?_performAll_of_frame h hframe

/-- A script behind a step depends on the same contexts whatever the environment of the step just in
case no name of that environment flows into it. -/
lemma implicated_enterStep_iff (h : s.IsSettled) {env : Assoc String} {ms : List Move} :
    (∀ env', ((s.perform (.enterStep env')).performAll ms).implicated bodies =
        ((s.perform (.enterStep env)).performAll ms).implicated bodies) ↔
      ∀ a, ¬ (s.perform (.enterStep env)).FlowsInto ms bodies (.stepEnv a) := by
  constructor
  · intro hall a hflow
    obtain ⟨r, text, hfresh, htaint⟩ := exists_fresh
      ((((s.perform (.enterStep env)).performAll ms).implicated bodies).map (·.token))
    have hlast (name : String) : Assoc.last? name (env ++ [(a, text)]) =
        if a = name then some text else Assoc.last? name env :=
      Assoc.last?_concat name env (a, text)
    have hheld : (s.perform (.enterStep (env ++ [(a, text)]))).at? (.stepEnv a) = some [r] := by
      rw [at?_stepEnv_enterStep h, hlast, if_pos rfl, Option.map_some, htaint]
    have hrest : ∀ y, y ≠ .stepEnv a → (s.perform (.enterStep (env ++ [(a, text)]))).at? y =
        (s.perform (.enterStep env)).at? y := by
      intro y hy
      by_cases hstep : ∃ name, y = .stepEnv name
      · obtain ⟨name, rfl⟩ := hstep
        have hne : a ≠ name := fun hname => hy (congrArg Slot.stepEnv hname.symm)
        rw [at?_stepEnv_enterStep h, at?_stepEnv_enterStep h, hlast, if_neg hne]
      · push Not at hstep
        rw [at?_enterStep_of_ne h _ hstep, at?_enterStep_of_ne h _ hstep]
    exact implicated_ne_of_flowsInto (h.perform _) (h.perform _) hrest hheld hfresh hflow (hall _)
  · intro hflow env'
    have hagree : AgreeOff (fun x => ∃ a, x = .stepEnv a) (s.perform (.enterStep env))
        (s.perform (.enterStep env')) := by
      intro x hx
      push Not at hx
      rw [at?_enterStep_of_ne h _ hx, at?_enterStep_of_ne h _ hx]
    refine (hagree.implicated_eq (h.perform _) (h.perform _) ?_).symm
    rintro _ ⟨a, rfl⟩
    exact hflow a

end Scope

namespace Audit

open Walk (scopeBehind movesAlong)

variable {k : Knowledge} {t : Classification.Tables} {d : Document} {j : Document.Job}
  {g : Graph} {before after : List Operation} {front xs : List Nat} {i m x : Nat}
  {s last : Document.Step} {walk : Walk}

lemma movesAlong_of_isRun {parent : Parent} {steps : List Document.Step}
    (h : IsRun t g parent xs steps) (previous : Option Nat) :
    movesAlong g previous xs = Scope.enterSteps steps := by
  induction h generalizing previous with
  | nil => rfl
  | cons hx _ ih =>
    rw [movesAlong, Walk.movesAt, hx, ih]
    rfl

lemma scopeBehind_withEnv_step {step : Graph.Step} {rest : List Nat} (hk : g.IsKeyed)
    (hx : g.nodes[x]? = some (.step step)) (hsimple : (front ++ x :: rest).Nodup)
    (env : Assoc String) :
    scopeBehind (g.withEnv (Node.step step).key env) (front ++ [x]) =
      (scopeBehind g front).perform (.enterStep env) := by
  have hnode : (Node.step step).withEnv (Node.step step).key env = .step { step with env := env } :=
    congrArg Node.step (if_pos rfl)
  rw [Walk.scopeBehind_withEnv hk hx hsimple, hnode]
  rfl

lemma scopeBehind_concat_step {step : Graph.Step} (hx : g.nodes[x]? = some (.step step))
    (front : List Nat) :
    scopeBehind g (front ++ [x]) = (scopeBehind g front).perform (.enterStep step.env) :=
  Walk.scopeBehind_concat hx front

lemma append_take_of_lt (front : List Nat) (hx : xs[i]? = some x) (him : i < m) :
    front ++ xs.take (m + 1) =
      (front ++ xs.take i) ++ x :: (xs.take (m + 1)).drop (i + 1) := by
  obtain ⟨hi, rfl⟩ := List.getElem?_eq_some_iff.mp hx
  rw [List.append_assoc, List.append_cancel_left_eq]
  have htake : (xs.take (m + 1)).take i = xs.take i := by
    rw [List.take_take, min_eq_left (by omega)]
  have hdrop : (xs.take (m + 1)).drop i = xs[i] :: (xs.take (m + 1)).drop (i + 1) := by
    rw [List.drop_eq_getElem_cons (by rw [List.length_take]; omega), List.getElem_take]
  rw [← htake, ← hdrop, List.take_append_drop]

lemma notMem_take_of_lt (hsimple : (front ++ xs).Nodup) (hx : xs[i]? = some x) (hmi : m < i) :
    x ∉ front ++ xs.take (m + 1) := by
  have hdrop : x ∈ xs.drop (m + 1) := by
    refine List.mem_of_getElem? (i := i - (m + 1)) ?_
    rw [List.getElem?_drop, ← hx]
    congr 1
    omega
  rw [← List.take_append_drop (m + 1) xs, ← List.append_assoc] at hsimple
  exact fun hmem => List.disjoint_of_nodup_append hsimple hmem hdrop

/-- On a path through a job the script of a step depends on the same contexts whatever the
environment of another step, just in case that step comes later or no name of its environment is
handed on, from step to step, to a name that the script mentions. -/
theorem step_env_scoped (hj : j ∈ d.jobs) (hs : j.steps[i]? = some s)
    (hlast : j.steps[m]? = some last) (him : i ≠ m)
    (hnew : (IndexedGraph.ofOperations before).toGraph.number?
      (stepNode t (.ofJob d j) s).key = none)
    (hrun : IsRun t (within before after t d) (.ofJob d j) xs j.steps)
    (hsimple : (front ++ xs).Nodup)
    (hwalk : Walk.along k (within before after t d) (front ++ xs.take (m + 1)) = some walk) :
    (∀ env,
        implicatedAlong k (within before after t (d.withStepEnv j.name s.index env))
            (front ++ xs.take (m + 1)) =
          implicatedAlong k (within before after t d) (front ++ xs.take (m + 1))) ↔
      ¬ (i < m ∧ ∃ a b, HandsOn ((j.steps.take (m + 1)).drop (i + 1)) a b ∧
        Context.MentionsEnv (Classification.classifyStep t last).contexts b) := by
  set g := within before after t d
  have hk : g.IsKeyed := Graph.isKeyed_ofOperations _
  obtain ⟨x, hxs, hx⟩ := hrun.exists_getElem? hs
  obtain ⟨y, hys, hy⟩ := hrun.exists_getElem? hlast
  have hchanged (env : Assoc String) : within before after t (d.withStepEnv j.name s.index env) =
      g.withEnv (stepNode t (.ofJob d j) s).key env :=
    Graph.within_withStepEnv hj (List.mem_of_getElem? hs) hnew after env
  simp only [hchanged]
  rcases him.lt_or_gt with hlt | hgt
  · have hpath := append_take_of_lt front hxs hlt
    have hend : endStep? g (front ++ xs.take (m + 1)) =
        some (.ofDocument t (Parent.ofJob d j).name d.repo j.name last) := by
      rw [endStep?_eq_some_iff, List.getLast?_append, Graph.getLast?_take_succ hys, Option.some_or]
      exact hy
    have hpart : ((front ++ xs.take i) ++ x :: (xs.take (m + 1)).drop (i + 1)).Nodup := by
      rw [← hpath]
      exact hsimple.sublist ((List.take_sublist _ _).append_left _)
    have hrest : IsRun t g (.ofJob d j) ((xs.take (m + 1)).drop (i + 1))
        ((j.steps.take (m + 1)).drop (i + 1)) :=
      List.forall₂_drop _ (List.forall₂_take _ hrun)
    rw [hpath] at hend hwalk ⊢
    obtain ⟨step, hstep⟩ : ∃ step, stepNode t (.ofJob d j) s = .step step := ⟨_, rfl⟩
    rw [hstep] at hx ⊢
    simp only [implicatedAlong_eq hend hwalk, implicatedAlong_withEnv hk hx hpart hend hwalk,
      scopeBehind_withEnv_step hk hx hpart, scopeBehind_concat_step hx, movesAlong_of_isRun hrest,
      Option.some.injEq]
    refine (Scope.implicated_enterStep_iff (Walk.isSettled_scopeBehind g _)).trans ?_
    simp only [Scope.flowsInto_enterSteps_iff, hlt, true_and, not_exists]
    rfl
  · have hpath : ∀ z ∈ front ++ xs.take (m + 1), ∀ n, g.nodes[z]? = some n →
        n.key ≠ (stepNode t (.ofJob d j) s).key := by
      rintro z hz n hn hkey
      obtain rfl := hk.eq hn hx hkey
      exact notMem_take_of_lt hsimple hxs hgt hz
    simp only [implicatedAlong_withEnv_of_ne hpath, hgt.not_gt, false_and, not_false_eq_true,
      implies_true]

/-- A job whose second step makes a name of its environment out of one that only the first step
has. -/
def handing : Document where
  repo := "o/r"
  ref := "HEAD"
  path := "ci.yml"
  content := some
    { isComposite := false
      name := none
      triggers := ["issues"]
      env := []
      jobs :=
        [⟨"build", none, [], [], [], [], none, none, none, none, none,
          [⟨0, none, none, none, some "ls", [],
              [("TITLE", "$\x7b\x7b github.head_ref \x7d\x7d")], none⟩,
            ⟨1, none, none, none, some "echo $\x7b\x7b env.BODY \x7d\x7d", [],
              [("BODY", "$\x7b\x7b env.TITLE \x7d\x7d")], none⟩]⟩] }

lemma handing_walk :
    ∃ j ∈ handing.jobs, ∃ s ∈ j.steps[0]?, ∃ last ∈ j.steps[1]?,
      List.Forall₂ (fun x s => (within [] [] .default handing).nodes[x]? =
        some (stepNode .default (.ofJob handing j) s)) [3, 4] j.steps ∧
        (Walk.along nothingKnown (within [] [] .default handing) [1, 2, 3, 4]).isSome = true ∧
        implicatedAlong nothingKnown (within [] [] .default handing) [1, 2, 3, 4] =
          some [⟨"github.head_ref", .env, some "env.BODY"⟩] ∧
        implicatedAlong nothingKnown
            (within [] [] .default (handing.withStepEnv j.name s.index [])) [1, 2, 3, 4] =
          some [] := by
  decide +kernel

theorem handed_on_name_flows :
    ∃ j ∈ handing.jobs, ∃ s last walk, j.steps[0]? = some s ∧ j.steps[1]? = some last ∧ 0 ≠ 1 ∧
      (IndexedGraph.ofOperations []).toGraph.number?
        (stepNode .default (.ofJob handing j) s).key = none ∧
      IsRun .default (within [] [] .default handing) (.ofJob handing j) [3, 4] j.steps ∧
      ([1, 2] ++ [3, 4]).Nodup ∧
      Walk.along nothingKnown (within [] [] .default handing) ([1, 2] ++ [3, 4].take (1 + 1)) =
        some walk ∧
      ∃ a b, HandsOn ((j.steps.take (1 + 1)).drop (0 + 1)) a b ∧
        Context.MentionsEnv (Classification.classifyStep .default last).contexts b := by
  obtain ⟨j, hj, s, hs, last, hlast, hrun, hwalk, hcontexts, hchanged⟩ := handing_walk
  obtain ⟨walk, hwalk⟩ := Option.isSome_iff_exists.mp hwalk
  have hsimple : ([1, 2] ++ [3, 4]).Nodup := by decide
  refine ⟨j, hj, s, last, walk, hs, hlast, by decide, rfl, hrun, hsimple, hwalk, ?_⟩
  have hscoped := step_env_scoped hj hs hlast (by decide) rfl hrun hsimple hwalk
  by_contra hnone
  have heq := hscoped.mpr (fun h => hnone h.2) []
  exact absurd (hchanged.symm.trans (heq.trans hcontexts)) (by simp)

/-- With the environment of the first step taken away the script of the second one depends on
nothing of the outsider's. -/
theorem handed_on_name_leaks :
    ∃ j ∈ handing.jobs, ∃ s ∈ j.steps[0]?, ∃ last ∈ j.steps[1]?,
      endStep? (within [] [] .default handing) [1, 2, 3, 4] =
        some (.ofDocument .default (Parent.ofJob handing j).name handing.repo j.name last) ∧
      implicatedAlong nothingKnown (within [] [] .default handing) [1, 2, 3, 4] ≠
        implicatedAlong nothingKnown
          (within [] [] .default (handing.withStepEnv j.name s.index [])) [1, 2, 3, 4] := by
  obtain ⟨j, hj, s, hs, last, hlast, hrun, -, hcontexts, hchanged⟩ := handing_walk
  refine ⟨j, hj, s, hs, last, hlast, ?_, ?_⟩
  · obtain ⟨y, hy, hnode⟩ := IsRun.exists_getElem? hrun hlast
    obtain rfl : 4 = y := Option.some.inj hy
    exact endStep?_eq_some_iff.mpr hnode
  · rw [hcontexts, hchanged]
    simp

end Audit

end WorkflowAudit
