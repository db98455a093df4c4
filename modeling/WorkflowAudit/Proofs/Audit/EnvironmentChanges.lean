import WorkflowAudit.Proofs.Audit.AttackPaths
import WorkflowAudit.Proofs.Audit.Flows
import WorkflowAudit.Proofs.Graph.Environments

/-! What another environment in one job or step of a path comes to at the end of the path. The walk
passes the same places and is ruled out by the same ones; only the scope behind the changed node may
differ. -/

namespace WorkflowAudit

open WorkflowAudit.Graph (Key Node)
open Source (Knowledge)

namespace Walk

variable {k : Knowledge} {g : Graph} {key : Key} {env : Assoc String} {n : Node} {x i : Nat}
  {previous : Option Nat} {path : List Nat}

lemma leavesBehind_withEnv (p : Place) (tag : String) :
    leavesBehind (g.withEnv key env) p tag = leavesBehind g p tag := by
  simp only [leavesBehind, entersSteps, reachesOwnStep, Graph.stepsOf_withEnv, Graph.paths_withEnv]

lemma isRuledOut_withEnv (p : Place) : isRuledOut k (g.withEnv key env) p = isRuledOut k g p := by
  rw [isRuledOut, isRuledOut, Graph.getElem?_withEnv]
  rcases g.nodes[p.current]? with _ | _ | _ | _ | _ | _
  case some.job => exact leavesBehind_withEnv p _
  all_goals rfl

lemma isSome_along_withEnv :
    (along k (g.withEnv key env) path).isSome = (along k g path).isSome := by
  rw [along, along, show isRuledOut k (g.withEnv key env) = isRuledOut k g from
    funext isRuledOut_withEnv]
  split <;> rfl

/-- Of the node that a path comes from only the inputs matter. -/
lemma movesInto_withEnv (caller : Option Node) (n : Node) :
    movesInto (caller.map (Node.withEnv key env)) n = movesInto caller n := by
  have hjob (j : Graph.Job) : (if (Node.job j).key = key then { j with env := env } else j).inputs =
      j.inputs := by
    split <;> rfl
  have hstep (s : Graph.Step) :
      (if (Node.step s).key = key then { s with env := env } else s).inputs = s.inputs := by
    split <;> rfl
  cases n with
  | repo _ | job _ | step _ => rfl
  | workflow w =>
    rcases caller with _ | _ | _ | j | _ | _
    case some.job => simp only [Option.map_some, Node.withEnv, movesInto, hjob]
    all_goals rfl
  | action a =>
    rcases caller with _ | _ | _ | _ | s | _
    case some.step => simp only [Option.map_some, Node.withEnv, movesInto, hstep]
    all_goals rfl

lemma nodeAt_withEnv (previous : Option Nat) :
    nodeAt (g.withEnv key env) previous = (nodeAt g previous).map (Node.withEnv key env) := by
  cases previous with
  | none => rfl
  | some y => exact Graph.getElem?_withEnv g key env y

lemma movesAt_withEnv (hx : g.nodes[x]? = some n) :
    movesAt (g.withEnv key env) previous x =
      movesInto (nodeAt g previous) (n.withEnv key env) := by
  rw [movesAt, Graph.getElem?_withEnv, hx, nodeAt_withEnv, Option.map_some, Option.map_some,
    Option.getD_some, movesInto_withEnv]

lemma movesAt_withEnv_of_ne (h : ∀ n, g.nodes[i]? = some n → n.key ≠ key) :
    movesAt (g.withEnv key env) previous i = movesAt g previous i := by
  cases hn : g.nodes[i]? with
  | none => simp [movesAt, Graph.getElem?_withEnv, hn]
  | some n => rw [movesAt_withEnv hn, Node.withEnv_of_ne (h n hn), movesAt, hn]; rfl

lemma movesAlong_withEnv (h : ∀ i ∈ path, ∀ n, g.nodes[i]? = some n → n.key ≠ key) :
    movesAlong (g.withEnv key env) previous path = movesAlong g previous path := by
  induction path generalizing previous with
  | nil => rfl
  | cons i rest ih =>
    rw [movesAlong, movesAlong, movesAt_withEnv_of_ne (h i List.mem_cons_self),
      ih fun j hj => h j (List.mem_cons_of_mem _ hj)]

/-- The changed node stands at one place of a path only. -/
lemma key_ne_of_nodup {front rest : List Nat} (hk : g.IsKeyed) (hx : g.nodes[x]? = some n)
    (hsimple : (front ++ x :: rest).Nodup) (hi : i ∈ front ∨ i ∈ rest) :
    ∀ m, g.nodes[i]? = some m → m.key ≠ n.key := by
  rintro m hm hkey
  obtain rfl := hk.eq hm hx hkey
  exact (List.nodup_middle.mp hsimple).notMem (List.mem_append.mpr hi)

lemma scopeBehind_withEnv_of_ne (h : ∀ i ∈ path, ∀ n, g.nodes[i]? = some n → n.key ≠ key) :
    scopeBehind (g.withEnv key env) path = scopeBehind g path := by
  rw [scopeBehind, movesAlong_withEnv h, scopeBehind]

lemma scopeBehind_concat (hx : g.nodes[x]? = some n) (front : List Nat) :
    scopeBehind g (front ++ [x]) =
      (scopeBehind g front).performAll (movesInto (nodeAt g front.getLast?) n) := by
  rw [scopeBehind_append, movesAlong, movesAlong, List.append_nil, movesAt, hx]
  rfl

/-- Behind the changed node the scope is what the visit of the node makes of the scope before it. -/
lemma scopeBehind_withEnv {front rest : List Nat} (hk : g.IsKeyed) (hx : g.nodes[x]? = some n)
    (hsimple : (front ++ x :: rest).Nodup) (env : Assoc String) :
    scopeBehind (g.withEnv n.key env) (front ++ [x]) =
      (scopeBehind g front).performAll
        (movesInto (nodeAt g front.getLast?) (n.withEnv n.key env)) := by
  have hchanged : (g.withEnv n.key env).nodes[x]? = some (n.withEnv n.key env) := by
    rw [Graph.getElem?_withEnv, hx, Option.map_some]
  rw [scopeBehind_concat hchanged, nodeAt_withEnv, movesInto_withEnv,
    scopeBehind_withEnv_of_ne fun i hi => key_ne_of_nodup hk hx hsimple (.inl hi)]

end Walk

namespace Audit

open Walk (scopeBehind movesAlong)

/-- The outsider's contexts that the script at the end of a path depends on, unless the path ends in
no step or is ruled out. -/
def implicatedAlong (k : Knowledge) (g : Graph) (path : List Nat) : Option (List Implicated) :=
  (endStep? g path).bind fun s => (Walk.along k g path).map (implicatedBehind · s)

variable {k : Knowledge} {g : Graph} {n : Node} {x : Nat} {front rest : List Nat} {s : Graph.Step}
  {walk : Walk}

lemma implicatedAlong_eq (hs : endStep? g (front ++ x :: rest) = some s)
    (hwalk : Walk.along k g (front ++ x :: rest) = some walk) :
    implicatedAlong k g (front ++ x :: rest) =
      some (((scopeBehind g (front ++ [x])).performAll (movesAlong g (some x) rest)).implicated
        s.traits.contexts) := by
  rw [implicatedAlong, hs, hwalk, Option.bind_some, Option.map_some, implicatedBehind,
    Walk.scope_of_along hwalk, List.append_cons, Walk.scopeBehind_append, List.getLast?_concat]

/-- The script at the end of a path sees another environment on the path only through the scope
behind the changed node. -/
lemma implicatedAlong_withEnv (hk : g.IsKeyed) (hx : g.nodes[x]? = some n)
    (hsimple : (front ++ x :: rest).Nodup) (hs : endStep? g (front ++ x :: rest) = some s)
    (hwalk : Walk.along k g (front ++ x :: rest) = some walk) (env : Assoc String) :
    implicatedAlong k (g.withEnv n.key env) (front ++ x :: rest) =
      some (((scopeBehind (g.withEnv n.key env) (front ++ [x])).performAll
        (movesAlong g (some x) rest)).implicated s.traits.contexts) := by
  obtain ⟨walk', hwalk'⟩ : ∃ walk', Walk.along k (g.withEnv n.key env) (front ++ x :: rest) =
      some walk' := by
    rw [← Option.isSome_iff_exists, Walk.isSome_along_withEnv, hwalk]
    rfl
  obtain ⟨s', hs', htraits⟩ : ∃ s', endStep? (g.withEnv n.key env) (front ++ x :: rest) = some s' ∧
      s'.traits = s.traits := by
    have hend : Walk.nodeAt (g.withEnv n.key env) (front ++ x :: rest).getLast? =
        some ((Node.step s).withEnv n.key env) := by
      rw [Walk.nodeAt_withEnv, endStep?_eq_some_iff.mp hs, Option.map_some]
    refine ⟨_, endStep?_eq_some_iff.mpr hend, ?_⟩
    split <;> rfl
  rw [implicatedAlong_eq hs' hwalk', htraits,
    Walk.movesAlong_withEnv fun i hi => Walk.key_ne_of_nodup hk hx hsimple (.inr hi)]

/-- A path that does not pass the changed node stays as it is. -/
lemma implicatedAlong_withEnv_of_ne {path : List Nat} {key : Key}
    (h : ∀ i ∈ path, ∀ n, g.nodes[i]? = some n → n.key ≠ key) (env : Assoc String) :
    implicatedAlong k (g.withEnv key env) path = implicatedAlong k g path := by
  have hend : endStep? (g.withEnv key env) path = endStep? g path := by
    have hlast : Walk.nodeAt (g.withEnv key env) path.getLast? = Walk.nodeAt g path.getLast? := by
      rw [Walk.nodeAt_withEnv]
      cases hl : path.getLast? with
      | none => rfl
      | some i =>
        cases hn : g.nodes[i]? with
        | none => simp [Walk.nodeAt, hn]
        | some n =>
          simp [Walk.nodeAt, hn, Node.withEnv_of_ne (h i (List.mem_of_getLast? hl) n hn)]
    rw [endStep?, endStep?, hlast]
  have hsome : (Walk.along k (g.withEnv key env) path).isSome = (Walk.along k g path).isSome :=
    Walk.isSome_along_withEnv
  rw [implicatedAlong, implicatedAlong, hend]
  refine congrArg _ (funext fun s => ?_)
  cases hw : Walk.along k g path with
  | none =>
    rw [hw, Option.isSome_none, Option.isSome_eq_false_iff, Option.isNone_iff_eq_none] at hsome
    rw [hsome]
  | some walk =>
    rw [hw, Option.isSome_some, Option.isSome_iff_exists] at hsome
    obtain ⟨walk', hw'⟩ := hsome
    rw [hw', Option.map_some, Option.map_some, implicatedBehind, implicatedBehind,
      Walk.scope_of_along hw, Walk.scope_of_along hw', Walk.scopeBehind_withEnv_of_ne h]

end Audit

end WorkflowAudit
