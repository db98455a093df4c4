import WorkflowAudit.Proofs.Evaluation.Logins

/-! Conditions whose answer hangs on the login. Equality with anything but the login itself never
does; a search for a part of a login does, and so does a login that is read as JSON. -/

namespace WorkflowAudit

open Evaluation (Builtin EvalError Satisfiability evaluate evaluateAll nameValue operate call)
open Login (IsLogin IsPart)

/-! ### Bindings -/

namespace Environment

/-- What the environment of an outsider binds besides the contexts that hold the login. -/
def withOthers (env : Environment) : Environment :=
  let env := env.bindAll associationContexts fun _ => options authorAssociations
  let env := env.bindAll freeformContexts .wildcard
  let env := env.bindAll forkContexts fun _ => .bool true
  let env := env.bind "github.event_name" (options eventNames)
  let env := env.bind "github.event.action" (options eventActions)
  let env := env.bind "github.event.workflow_run.event" (options workflowRunEvents)
  let env := env.bind "github.event.workflow_run.conclusion" (options workflowRunConclusions)
  env.bindAll pullRequestFlags fun _ => either

def withActor (login : String) : Environment := empty.bindAll actorContexts fun _ => .text login

lemma outsider_eq (login : String) : outsider login = (withActor login).withOthers := rfl

variable {env env' : Environment} {name : String} {P : Value → Prop} {l : String}

lemma lookup_bind_congr (h : env.lookup name = env'.lookup name) (context : String) (v : Value) :
    (env.bind context v).lookup name = (env'.bind context v).lookup name := by
  rw [lookup_bind, lookup_bind, h]

lemma lookup_bindAll_congr (h : env.lookup name = env'.lookup name) (contexts : List String)
    (value : String → Value) :
    (env.bindAll contexts value).lookup name = (env'.bindAll contexts value).lookup name := by
  induction contexts generalizing env env' with
  | nil => exact h
  | cons c contexts ih => exact ih (lookup_bind_congr h c (value c))

lemma lookup_withOthers_congr (h : env.lookup name = env'.lookup name) :
    env.withOthers.lookup name = env'.withOthers.lookup name := by
  refine lookup_bindAll_congr ?_ _ _
  iterate 4 refine lookup_bind_congr ?_ _ _
  iterate 3 refine lookup_bindAll_congr ?_ _ _
  exact h

/-- What is known of every value that a name is bound to. -/
def Binds (P : Value → Prop) (name : String) (env : Environment) : Prop :=
  ∀ v, env.lookup name = some v → P v

lemma Binds.bind (h : env.Binds P name) (context : String) {v : Value} (hv : P v) :
    (env.bind context v).Binds P name := by
  intro w hw
  rw [lookup_bind] at hw
  split at hw
  · cases hw
    exact hv
  · exact h w hw

lemma Binds.bindAll (h : env.Binds P name) (contexts : List String) {value : String → Value}
    (hv : ∀ c, P (value c)) : (env.bindAll contexts value).Binds P name := by
  induction contexts generalizing env with
  | nil => exact h
  | cons c contexts ih => exact ih (h.bind c (hv c))

open Value in
lemma spares_options (hl : IsLogin l) {names : List String}
    (h : ∀ s ∈ names, (Text.lowercase s).toList.countP Login.isDigit < 16) :
    (options names).Spares l := by
  refine spares_of_avoids rfl ?_
  rw [options, avoids, allAvoid_iff]
  intro v hv
  obtain ⟨s, hs, rfl⟩ := List.mem_map.mp hv
  rw [avoids, Login.contains_of_countP_lt hl (h s hs)]
  rfl

lemma binds_withOthers (hl : IsLogin l) (h : env.Binds (Value.Spares l) name) :
    env.withOthers.Binds (Value.Spares l) name := by
  have hwildcard (c : String) : (Value.wildcard c).Spares l :=
    Value.spares_of_avoids rfl (by simp [Value.avoids])
  have heither : either.Spares l :=
    Value.spares_of_avoids rfl (by simp [either, Value.avoids, Value.allAvoid])
  refine Binds.bindAll ?_ _ fun _ => heither
  refine Binds.bind ?_ _ (spares_options hl (by decide))
  refine Binds.bind ?_ _ (spares_options hl (by decide))
  refine Binds.bind ?_ _ (spares_options hl (by decide))
  refine Binds.bind ?_ _ (spares_options hl (by decide))
  refine Binds.bindAll ?_ _ fun _ => Value.spares_bool l true
  refine Binds.bindAll ?_ _ hwildcard
  exact h.bindAll _ fun _ => spares_options hl (by decide)

lemma fold_actorContexts : actorContexts.map Text.fold = actorContexts := by
  repeat refine congrArg₂ List.cons (Text.fold_ofList _) ?_
  rfl

/-- The contexts that the environment of an outsider binds besides those that hold the login. -/
def otherContexts : List String :=
  pullRequestFlags ++ ["github.event.workflow_run.conclusion", "github.event.workflow_run.event",
    "github.event.action", "github.event_name"] ++ forkContexts ++ freeformContexts ++
    associationContexts

lemma fold_otherContexts : otherContexts.map Text.fold = otherContexts := by
  repeat refine congrArg₂ List.cons (Text.fold_ofList _) ?_
  rfl

/-- The contexts that hold the login are bound to nothing else. -/
lemma lookup_withOthers_of_actor (h : Text.fold name ∈ actorContexts) :
    env.withOthers.lookup name = env.lookup name := by
  have hapart : ∀ c ∈ actorContexts, c ∉ otherContexts := by
    simp [actorContexts, otherContexts, pullRequestFlags, forkContexts, freeformContexts,
      associationContexts]
  have hfresh : Text.fold name ∉ otherContexts.map Text.fold := by
    rw [fold_otherContexts]
    exact hapart _ h
  simp only [otherContexts, List.map_append, List.map_cons, List.map_nil, List.mem_append,
    List.mem_cons, List.not_mem_nil, not_or, or_false] at hfresh
  obtain ⟨⟨⟨⟨hflags, hconclusion, hevent, haction, hname⟩, hforks⟩, hfreeform⟩, hassociations⟩ :=
    hfresh
  rw [withOthers, lookup_bindAll_of_notMem _ hflags, lookup_bind, if_neg hconclusion, lookup_bind,
    if_neg hevent, lookup_bind, if_neg haction, lookup_bind, if_neg hname,
    lookup_bindAll_of_notMem _ hforks, lookup_bindAll_of_notMem _ hfreeform,
    lookup_bindAll_of_notMem _ hassociations]

def isActor (name : String) : Bool := actorContexts.any (Text.sameIgnoringCase · name)

lemma isActor_iff : isActor name = true ↔ Text.fold name ∈ actorContexts := by
  simp only [isActor, List.any_eq_true, ← Text.fold_eq_iff]
  constructor
  · rintro ⟨c, hc, heq⟩
    rw [← heq, ← fold_actorContexts]
    exact List.mem_map_of_mem hc
  · intro h
    rw [← fold_actorContexts] at h
    exact List.mem_map.mp h

lemma lookup_of_isActor (l : String) (h : isActor name = true) :
    (outsider l).lookup name = some (.text l) := by
  rw [isActor_iff] at h
  have hdistinct : (actorContexts.map Text.fold).Nodup := by
    rw [fold_actorContexts]
    decide
  have hfold : Text.fold (Text.fold name) = Text.fold name :=
    List.map_inj_left.mp (fold_actorContexts.trans (List.map_id _).symm) _ h
  rw [outsider_eq, lookup_withOthers_of_actor h, withActor, lookup, ← hfold]
  exact lookup_bindAll hdistinct h _ empty

lemma lookup_of_not_isActor (l : String) (h : isActor name = false) :
    (outsider l).lookup name = empty.withOthers.lookup name := by
  have hnot : Text.fold name ∉ actorContexts.map Text.fold := by
    rw [fold_actorContexts]
    exact fun hmem => Bool.false_ne_true (h.symm.trans (isActor_iff.mpr hmem))
  exact lookup_withOthers_congr (lookup_bindAll_of_notMem _ hnot empty)

/-- What a name has if it is not bound to the login. -/
lemma spares_lookup (hl : IsLogin l) :
    ((empty.withOthers.lookup name).getD (.wildcard name)).Spares l := by
  have hbinds : empty.withOthers.Binds (Value.Spares l) name :=
    binds_withOthers hl fun v hv => by cases hv
  cases hlookup : empty.withOthers.lookup name with
  | none => exact Value.spares_of_avoids rfl (by simp [Value.avoids])
  | some v => exact hbinds v hlookup

end Environment

/-! ### Expressions -/

namespace Evaluation.Builtin

/-- Whether a result is one of the arguments, and whether that one passes the login on. -/
def passes : Builtin → List Bool → Bool
  | fromJson, [b] | toJson, [b] | format, [b] => b
  | format, _ :: b :: _ => b
  | _, _ => false

end Evaluation.Builtin

namespace Expression

mutual

/-- An expression and all that it is made of. -/
def parts : Expression → List Expression
  | .call f args => .call f args :: partsOfAll args
  | .binary op l r => .binary op l r :: (parts l ++ parts r)
  | .not e => .not e :: parts e
  | e => [e]

def partsOfAll : List Expression → List Expression
  | [] => []
  | e :: rest => parts e ++ partsOfAll rest

end

mutual

/-- The value may be the login itself. -/
def passesLogin : Expression → Bool
  | .name s => Environment.isActor s
  | .call f args => (Builtin.ofName? f).any fun b => b.passes (passLogin args)
  | _ => false

def passLogin : List Expression → List Bool
  | [] => []
  | e :: rest => passesLogin e :: passLogin rest

end

/-- Nothing in the expression expects a login, or tells one login from another: no literal has the
login in it or spells a value in JSON that does, what is searched for in a login is no part of one,
and a login that is read as JSON spells nothing. -/
structure IsBlindTo (l : String) (e : Expression) : Prop where
  texts : ∀ s, .text s ∈ e.parts → (Value.text s).Spares l
  numbers : ∀ x, .number x ∈ e.parts → (Value.number x).avoids l = true
  searches : ∀ f b search item v, .call f [search, item] ∈ e.parts → Builtin.ofName? f = some b →
    b.isSearch = true → search.passesLogin = true →
    evaluate (Environment.outsider l) item = .ok v → v.IsNoPart
  readings : Json.read? l = none ∨ ∀ f arg, .call f [arg] ∈ e.parts →
    Builtin.ofName? f = some .fromJson → arg.passesLogin = false

variable {l l' : String} {e e' : Expression}

lemma self_mem_parts (e : Expression) : e ∈ e.parts := by
  cases e <;> simp [parts]

lemma IsBlindTo.mono (h : e.IsBlindTo l) (hsub : ∀ x ∈ e'.parts, x ∈ e.parts) :
    e'.IsBlindTo l where
  texts s hs := h.texts s (hsub _ hs)
  numbers x hx := h.numbers x (hsub _ hx)
  searches f b search item v hcall := h.searches f b search item v (hsub _ hcall)
  readings := h.readings.imp_right fun hall f arg hcall => hall f arg (hsub _ hcall)

lemma mem_partsOfAll {a x : Expression} {args : List Expression} (ha : a ∈ args)
    (hx : x ∈ a.parts) : x ∈ partsOfAll args := by
  induction args with
  | nil => cases ha
  | cons e rest ih =>
    rw [partsOfAll, List.mem_append]
    rcases List.mem_cons.mp ha with rfl | ha
    · exact .inl hx
    · exact .inr (ih ha)

namespace IsBlindTo

lemma negated (h : (Expression.not e).IsBlindTo l) : e.IsBlindTo l :=
  h.mono fun x hx => by
    rw [parts]
    exact List.mem_cons_of_mem _ hx

lemma left {op : BinaryOp} {lhs rhs : Expression} (h : (Expression.binary op lhs rhs).IsBlindTo l) :
    lhs.IsBlindTo l :=
  h.mono fun x hx => by
    rw [parts]
    exact List.mem_cons_of_mem _ (List.mem_append_left _ hx)

lemma right {op : BinaryOp} {lhs rhs : Expression}
    (h : (Expression.binary op lhs rhs).IsBlindTo l) : rhs.IsBlindTo l :=
  h.mono fun x hx => by
    rw [parts]
    exact List.mem_cons_of_mem _ (List.mem_append_right _ hx)

lemma argument {f : String} {args : List Expression} (h : (Expression.call f args).IsBlindTo l)
    {a : Expression} (ha : a ∈ args) : a.IsBlindTo l :=
  h.mono fun x hx => by
    rw [parts]
    exact List.mem_cons_of_mem _ (mem_partsOfAll ha hx)

lemma read?_eq_none {f : String} {args : List Expression} (h : (Expression.call f args).IsBlindTo l)
    (hf : Builtin.ofName? f = some .fromJson) (hpass : passLogin args = [true]) :
    Json.read? l = none := by
  refine h.readings.resolve_right fun hall => ?_
  cases args with
  | nil => cases hpass
  | cons a rest =>
    obtain ⟨ha, hrest⟩ := List.cons.inj hpass
    cases rest with
    | nil => exact Bool.false_ne_true ((hall f a (self_mem_parts _) hf).symm.trans ha)
    | cons _ _ => cases hrest

end IsBlindTo

end Expression

namespace Evaluation

open Value (Mirrors)
open Environment (outsider)

/-- The results of one evaluation with either login: the same error, or values that are related. -/
inductive Agree {α : Type} (R : α → α → Prop) : Except EvalError α → Except EvalError α → Prop
  | error (e : EvalError) : Agree R (.error e) (.error e)
  | ok {v v' : α} : R v v' → Agree R (.ok v) (.ok v')

/-- The values of arguments, one by one. -/
inductive MirrorAll (l l' : String) : List Bool → List Value → List Value → Prop
  | nil : MirrorAll l l' [] [] []
  | cons {b : Bool} {bs : List Bool} {v v' : Value} {vs vs' : List Value} : Mirrors l l' b v v' →
      MirrorAll l l' bs vs vs' → MirrorAll l l' (b :: bs) (v :: vs) (v' :: vs')

variable {l l' : String} {bs : List Bool} {vs vs' : List Value} {b : Builtin} {passes : Bool}
  {e : Expression} {es : List Expression}

lemma MirrorAll.length_eq (h : MirrorAll l l' bs vs vs') : vs.length = vs'.length := by
  induction h with
  | nil => rfl
  | cons _ _ ih => rw [List.length_cons, List.length_cons, ih]

lemma mirrors_bool {p q : Bool} (h : p = q) : Mirrors l l' passes (.bool p) (.bool q) :=
  h ▸ .same (Value.spares_bool l p) (Value.spares_bool l' p)

lemma exists_affix_eq (matched : String → String → Bool) (v w : Value) :
    ∃ p, Builtin.affix matched v w = .bool p := by
  unfold Builtin.affix
  split <;> exact ⟨_, rfl⟩

section

variable (hl : IsLogin l) (hl' : IsLogin l')

include hl hl'

lemma mirrors_affix {v v' w w' : Value} {c c' : Bool} (hv : Mirrors l l' c v v')
    (hw : Mirrors l l' c' w w') (hpart : c = true → w.IsNoPart) :
    Mirrors l l' passes (Builtin.affix b.finds v w) (Builtin.affix b.finds v' w') := by
  obtain ⟨p, hp⟩ := exists_affix_eq b.finds v w
  rw [← hv.affix hl hl' b hw hpart, hp]
  exact mirrors_bool rfl

/-- The functions that look for text in text all take two arguments. -/
lemma result?_search (hb : b.isSearch = true) (hall : MirrorAll l l' bs vs vs')
    (hsearch : ∀ v w rest, vs = [v, w] → bs = true :: rest → w.IsNoPart) :
    Option.Rel (Mirrors l l' (b.passes bs)) (b.result? vs) (b.result? vs') := by
  cases hall with
  | nil =>
    cases b with
    | contains | startsWith | endsWith => exact .none
    | _ => cases hb
  | @cons c _ v _ _ _ hv hrest =>
    cases hrest with
    | nil =>
      cases b with
      | contains | startsWith | endsWith => exact .none
      | _ => cases hb
    | @cons _ _ w _ _ _ hw hrest =>
      cases hrest with
      | nil =>
        have hpart : c = true → w.IsNoPart := by
          rintro rfl
          exact hsearch v w _ rfl rfl
        cases b with
        | contains => exact .some (mirrors_bool (hv.couldContain hl hl' hw hpart))
        | startsWith => exact .some (mirrors_affix (b := .startsWith) hl hl' hv hw hpart)
        | endsWith => exact .some (mirrors_affix (b := .endsWith) hl hl' hv hw hpart)
        | _ => cases hb
      | cons _ _ =>
        cases b with
        | contains | startsWith | endsWith => exact .none
        | _ => cases hb

lemma result?_mirrors (hall : MirrorAll l l' bs vs vs')
    (hsearch : b.isSearch = true → ∀ v w rest, vs = [v, w] → bs = true :: rest → w.IsNoPart)
    (hread : b = .fromJson → bs = [true] → Json.read? l = none ∧ Json.read? l' = none) :
    Option.Rel (Mirrors l l' (b.passes bs)) (b.result? vs) (b.result? vs') := by
  cases b with
  | contains | startsWith | endsWith => exact result?_search hl hl' rfl hall (hsearch rfl)
  | status answer =>
    cases hall with
    | nil => exact .some (mirrors_bool rfl)
    | cons _ _ => exact .none
  | fromJson =>
    cases hall with
    | nil => exact .none
    | cons hv hrest =>
      cases hrest with
      | nil =>
        refine .some (hv.parsed ?_)
        rintro rfl
        exact hread rfl rfl
      | cons _ _ => exact .none
  | toJson =>
    cases hall with
    | nil => exact .none
    | cons hv hrest =>
      cases hrest with
      | nil => exact .some hv
      | cons _ _ => exact .none
  | format =>
    cases hall with
    | nil => exact .none
    | cons hv hrest =>
      cases hrest with
      | nil => exact .some hv
      | cons hw _ => exact .some hw

lemma call_agree (f : String) (hall : MirrorAll l l' bs vs vs')
    (hsearch : ∀ b, Builtin.ofName? f = some b → b.isSearch = true →
      ∀ v w rest, vs = [v, w] → bs = true :: rest → w.IsNoPart)
    (hread : Builtin.ofName? f = some .fromJson → bs = [true] →
      Json.read? l = none ∧ Json.read? l' = none) :
    Agree (Mirrors l l' ((Builtin.ofName? f).any (·.passes bs))) (call f vs) (call f vs') := by
  rw [call, call]
  cases hf : Builtin.ofName? f with
  | none => exact .error _
  | some b =>
    have hrel := result?_mirrors hl hl' hall (hsearch b hf) fun hb => hread (hb ▸ hf)
    simp only
    rw [hall.length_eq]
    generalize b.result? vs = r, b.result? vs' = r' at hrel ⊢
    cases hrel with
    | none => exact .error _
    | some hv => exact .ok hv

lemma nameValue_agree (name : String) :
    Agree (Mirrors l l' (Environment.isActor name)) (nameValue (outsider l) name)
      (nameValue (outsider l') name) := by
  rw [nameValue, nameValue]
  split
  · exact .ok (mirrors_bool rfl)
  split
  · exact .ok (mirrors_bool rfl)
  split
  · cases hactor : Environment.isActor name with
    | true =>
      rw [Environment.lookup_of_isActor l hactor, Environment.lookup_of_isActor l' hactor]
      exact .ok (.login rfl)
    | false =>
      rw [Environment.lookup_of_not_isActor l hactor, Environment.lookup_of_not_isActor l' hactor]
      exact .ok (.same (Environment.spares_lookup hl) (Environment.spares_lookup hl'))
  · exact .error _

lemma operate_eq (op : BinaryOp) (lhs rhs : Expression) {c c' : Bool} {v v' w w' : Value}
    (hv : Mirrors l l' c v v') (hw : Mirrors l l' c' w w') :
    operate op lhs rhs v w = operate op lhs rhs v' w' := by
  have hnamed : comparedByName lhs rhs v w = comparedByName lhs rhs v' w' := by
    unfold comparedByName
    rw [hv.isWildcard, hw.isWildcard]
  cases op with
  | and => rw [operate, operate, hv.truthy hl hl', hw.truthy hl hl']
  | or => rw [operate, operate, hv.truthy hl hl', hw.truthy hl hl']
  | equal => rw [operate, operate, hnamed, hv.couldEqual hl hl' hw]
  | notEqual => rw [operate, operate, hnamed, hv.couldDiffer hl hl' hw]

end

mutual

lemma evaluate_agree (hl : IsLogin l) (hl' : IsLogin l') :
    (e : Expression) → e.IsBlindTo l → e.IsBlindTo l' →
    Agree (Mirrors l l' e.passesLogin) (evaluate (outsider l) e) (evaluate (outsider l') e)
  | .number x, h, h' => by
    have hx := Expression.self_mem_parts (.number x)
    rw [evaluate, evaluate]
    exact .ok (.same (Value.spares_of_avoids rfl (h.numbers x hx))
      (Value.spares_of_avoids rfl (h'.numbers x hx)))
  | .text s, h, h' => by
    have hs := Expression.self_mem_parts (.text s)
    rw [evaluate, evaluate]
    exact .ok (.same (h.texts s hs) (h'.texts s hs))
  | .name s, _, _ => by
    rw [evaluate, evaluate, Expression.passesLogin]
    exact nameValue_agree hl hl' s
  | .not e, h, h' => by
    have ih := evaluate_agree hl hl' e h.negated h'.negated
    rw [evaluate, evaluate]
    generalize evaluate (outsider l) e = r, evaluate (outsider l') e = r' at ih ⊢
    cases ih with
    | error err => exact .error err
    | ok hv => exact .ok (mirrors_bool (hv.falsy hl hl'))
  | .binary op lhs rhs, h, h' => by
    have ihl := evaluate_agree hl hl' lhs h.left h'.left
    have ihr := evaluate_agree hl hl' rhs h.right h'.right
    rw [evaluate, evaluate]
    generalize evaluate (outsider l) lhs = r, evaluate (outsider l') lhs = r' at ihl ⊢
    cases ihl with
    | error err => exact .error err
    | ok hv =>
      generalize evaluate (outsider l) rhs = r, evaluate (outsider l') rhs = r' at ihr ⊢
      cases ihr with
      | error err => exact .error err
      | ok hw => exact .ok (mirrors_bool (operate_eq hl hl' op lhs rhs hv hw))
  | .call f args, h, h' => by
    have ih := evaluateAll_agree hl hl' args (fun _ he => h.argument he) fun _ he => h'.argument he
    have hitem {vs : List Value} (hvs : evaluateAll (outsider l) args = .ok vs) :
        ∀ b, Builtin.ofName? f = some b → b.isSearch = true →
          ∀ v w rest, vs = [v, w] → Expression.passLogin args = true :: rest → w.IsNoPart := by
      rintro b hb hsearch v w rest rfl hpass
      obtain _ | ⟨-, _ | ⟨hw, hnil⟩⟩ := forall₂_of_evaluateAll hvs
      cases hnil
      exact h.searches f b _ _ w (Expression.self_mem_parts _) hb hsearch
        (List.cons.inj hpass).1 hw
    rw [evaluate, evaluate, Expression.passesLogin]
    generalize evaluateAll (outsider l) args = r, evaluateAll (outsider l') args = r' at ih hitem ⊢
    cases ih with
    | error err => exact .error err
    | ok hall =>
      exact call_agree hl hl' f hall (hitem rfl) fun hf hpass =>
        ⟨h.read?_eq_none hf hpass, h'.read?_eq_none hf hpass⟩

lemma evaluateAll_agree (hl : IsLogin l) (hl' : IsLogin l') :
    (es : List Expression) → (∀ e ∈ es, e.IsBlindTo l) → (∀ e ∈ es, e.IsBlindTo l') →
    Agree (MirrorAll l l' (Expression.passLogin es)) (evaluateAll (outsider l) es)
      (evaluateAll (outsider l') es)
  | [], _, _ => by
    rw [evaluateAll, evaluateAll, Expression.passLogin]
    exact .ok .nil
  | e :: rest, h, h' => by
    have ih := evaluate_agree hl hl' e (h e List.mem_cons_self) (h' e List.mem_cons_self)
    have ihrest := evaluateAll_agree hl hl' rest (fun a ha => h a (List.mem_cons_of_mem _ ha))
      fun a ha => h' a (List.mem_cons_of_mem _ ha)
    rw [evaluateAll, evaluateAll, Expression.passLogin]
    generalize evaluate (outsider l) e = r, evaluate (outsider l') e = r' at ih ⊢
    cases ih with
    | error err => exact .error err
    | ok hv =>
      generalize evaluateAll (outsider l) rest = r, evaluateAll (outsider l') rest = r' at ihrest ⊢
      cases ihrest with
      | error err => exact .error err
      | ok hvs => exact .ok (.cons hv hvs)

end

/-- The answer to a condition is the same for any two logins that the condition is blind to. -/
theorem of_outsider_eq_of_isBlindTo {condition : String} (hl : IsLogin l) (hl' : IsLogin l')
    (h : ∀ e ∈ Expression.parse? condition, e.IsBlindTo l ∧ e.IsBlindTo l') :
    Satisfiability.of condition (outsider l) = Satisfiability.of condition (outsider l') := by
  rw [Satisfiability.of, Satisfiability.of]
  split
  · rfl
  · cases hparse : Expression.parse? condition with
    | none => rfl
    | some e =>
      obtain ⟨hblind, hblind'⟩ := h e hparse
      have hagree := evaluate_agree hl hl' e hblind hblind'
      simp only
      generalize evaluate (outsider l) e = r, evaluate (outsider l') e = r' at hagree ⊢
      cases hagree with
      | error err => rfl
      | ok hv => exact congrArg Satisfiability.definite (hv.truthy hl hl')

/-- The outsider is none of two bots. -/
def notABot : Expression :=
  .binary .and (.binary .notEqual (.name "github.actor") (.text "dependabot[bot]"))
    (.not (.call "startsWith" [.name "github.triggering_actor", .text "renovate"]))

lemma isBlindTo_notABot (hl : IsLogin l) : notABot.IsBlindTo l := by
  have hspares {s : String} (hread : Json.read? s = none)
      (hlength : (Text.lowercase s).toList.length < 16) : (Value.text s).Spares l := by
    refine Value.spares_of_avoids (by rw [Builtin.parsed, hread]) ?_
    rw [Value.avoids, Login.contains_of_length_lt hl hlength]
    rfl
  have hparts : notABot.parts = [notABot,
      .binary .notEqual (.name "github.actor") (.text "dependabot[bot]"), .name "github.actor",
      .text "dependabot[bot]",
      .not (.call "startsWith" [.name "github.triggering_actor", .text "renovate"]),
      .call "startsWith" [.name "github.triggering_actor", .text "renovate"],
      .name "github.triggering_actor", .text "renovate"] := by
    simp [notABot, Expression.parts, Expression.partsOfAll]
  refine ⟨fun s hs => ?_, fun x hx => ?_, fun f b search item v hcall hf hb hpass hv => ?_,
    .inr fun f arg hcall hf => ?_⟩
  · rw [hparts] at hs
    obtain rfl | rfl : s = "dependabot[bot]" ∨ s = "renovate" := by simpa [notABot] using hs
    · exact hspares rfl (by decide)
    · exact hspares rfl (by decide)
  · rw [hparts] at hx
    simp [notABot] at hx
  · rw [hparts] at hcall
    obtain ⟨rfl, rfl, rfl⟩ : f = "startsWith" ∧ search = .name "github.triggering_actor" ∧
        item = .text "renovate" := by simpa [notABot] using hcall
    rw [evaluate] at hv
    cases hv
    intro y hy
    rw [Value.outcomes_text, List.mem_singleton] at hy
    subst hy
    exact .inr (by decide)
  · rw [hparts] at hcall
    simp [notABot] at hcall

/-- The answer is no other for a login that starts with another letter. -/
theorem notABot_agrees :
    let condition :=
      "github.actor != 'dependabot[bot]' && !startsWith(github.triggering_actor, 'renovate')"
    IsLogin "a000000000000000" ∧ IsLogin "b000000000000000" ∧
      Expression.parse? condition = some notABot ∧
      (∀ e ∈ Expression.parse? condition,
        e.IsBlindTo "a000000000000000" ∧ e.IsBlindTo "b000000000000000") ∧
      Satisfiability.of condition (outsider "a000000000000000") =
        Satisfiability.of condition (outsider "b000000000000000") := by
  intro condition
  have ha : IsLogin "a000000000000000" := by decide
  have hb : IsLogin "b000000000000000" := by decide
  have hparse : Expression.parse? condition = some notABot :=
    (Expression.parse?_ofList _).trans rfl
  have hblind : ∀ e ∈ Expression.parse? condition,
      e.IsBlindTo "a000000000000000" ∧ e.IsBlindTo "b000000000000000" := by
    intro e he
    obtain rfl := Option.some.inj (hparse.symm.trans he)
    exact ⟨isBlindTo_notABot ha, isBlindTo_notABot hb⟩
  exact ⟨ha, hb, hparse, hblind, of_outsider_eq_of_isBlindTo ha hb hblind⟩

/-! ### Searches that tell logins apart -/

lemma evaluate_search {f c s : String} (hf : Builtin.ofName? f = some b) (hb : b.isSearch = true)
    (hc : c ∈ Environment.actorContexts) (hl : IsLogin l) :
    evaluate (outsider l) (.call f [.name c, .text s]) =
      .ok (.bool (b.finds (Text.lowercase s) l)) := by
  have hgithub : ∀ c ∈ Environment.actorContexts, Expression.isGithub c = true := by decide +kernel
  have hactor : Environment.isActor c = true :=
    List.any_eq_true.mpr ⟨c, hc, beq_self_eq_true _⟩
  have hname : evaluate (outsider l) (.name c) = .ok (.text l) := by
    rw [evaluate_context (hgithub c hc), Environment.lookup_of_isActor l hactor, Option.getD_some]
  have hcall : b.result? [.text l, .text s] =
      some (.bool (b.finds (Text.lowercase s) (Text.lowercase l))) := by
    cases b with
    | contains =>
      simp [Builtin.result?, Builtin.finds, Value.couldContain, Value.outcomes_text,
        Value.outcomeContains, Value.textContains, Value.isWildcard, Value.display]
    | startsWith | endsWith => rfl
    | _ => cases hb
  rw [evaluate, evaluateAll, hname, evaluateAll, evaluate, evaluateAll]
  simp only [call, hf, hcall, Login.lowercase_login hl]

lemma exists_login_with {q : String} (hq : IsPart q) (hb : b.isSearch = true) :
    ∃ l, IsLogin l ∧ b.finds q l = true := by
  obtain ⟨-, hlength, hdigits⟩ := hq
  set zeros := List.replicate (16 - q.toList.length) '0'
  have hzeros : ∀ c ∈ zeros, Login.isDigit c = true := by
    intro c hc
    rw [List.eq_of_mem_replicate hc]
    rfl
  have hlogin (cs : List Char) (hcs : cs.Perm (q.toList ++ zeros)) :
      IsLogin (String.ofList cs) := by
    refine ⟨?_, fun c hc => ?_⟩
    · rw [String.toList_ofList, hcs.length_eq, List.length_append, List.length_replicate]
      omega
    · rw [String.toList_ofList, hcs.mem_iff, List.mem_append] at hc
      exact hc.elim (hdigits c) (hzeros c)
  cases b with
  | contains =>
    refine ⟨_, hlogin _ (.refl _), Text.contains_iff.mpr ?_⟩
    rw [String.toList_ofList]
    exact (List.prefix_append _ _).isInfix
  | startsWith =>
    refine ⟨_, hlogin _ (.refl _), Text.startsWith_iff.mpr ?_⟩
    rw [String.toList_ofList]
    exact List.prefix_append _ _
  | endsWith =>
    refine ⟨_, hlogin _ List.perm_append_comm, Text.endsWith_iff.mpr ?_⟩
    rw [String.toList_ofList]
    exact List.suffix_append _ _
  | _ => cases hb

lemma exists_login_without {q : String} (hq : IsPart q) (b : Builtin) :
    ∃ l, IsLogin l ∧ b.finds q l = false := by
  obtain ⟨hne, -, -⟩ := hq
  obtain ⟨c, cs, hcs⟩ := List.exists_cons_of_ne_nil hne
  obtain ⟨d, hd, hcd⟩ : ∃ d, Login.isDigit d = true ∧ c ≠ d := by
    by_cases hc : c = '0'
    · exact ⟨'1', rfl, by rw [hc]; decide⟩
    · exact ⟨'0', rfl, hc⟩
  refine ⟨String.ofList (List.replicate 16 d), ⟨by simp, fun c' hc' => ?_⟩, ?_⟩
  · rw [String.toList_ofList] at hc'
    rwa [List.eq_of_mem_replicate hc']
  · rw [Bool.eq_false_iff]
    intro hfinds
    have hsubset := (Text.contains_iff.mp (Builtin.contains_of_finds hfinds)).subset
    rw [String.toList_ofList, hcs] at hsubset
    exact hcd (List.eq_of_mem_replicate (hsubset List.mem_cons_self))

/-- Some two logins give a search in them different answers just in case it looks for a part of a
login. -/
theorem search_tells_logins_apart_iff {f c s : String} (hf : Builtin.ofName? f = some b)
    (hb : b.isSearch = true) (hc : c ∈ Environment.actorContexts) :
    (∃ l l', IsLogin l ∧ IsLogin l' ∧ (Value.text s).avoids l = true ∧
        (Value.text s).avoids l' = true ∧
        evaluate (outsider l) (.call f [.name c, .text s]) ≠
          evaluate (outsider l') (.call f [.name c, .text s])) ↔
      IsPart (Text.lowercase s) := by
  constructor
  · rintro ⟨l, l', hl, hl', havoids, havoids', hne⟩
    by_contra hpart
    rw [evaluate_search hf hb hc hl, evaluate_search hf hb hc hl',
      Builtin.finds_login hl hpart (Value.contains_of_avoids havoids),
      Builtin.finds_login hl' hpart (Value.contains_of_avoids havoids')] at hne
    exact hne rfl
  · intro hpart
    have havoids {l : String} (hl : IsLogin l) : (Value.text s).avoids l = true := by
      rw [Value.avoids, Login.contains_of_length_lt hl hpart.2.1]
      rfl
    obtain ⟨l, hl, hfinds⟩ := exists_login_with hpart hb
    obtain ⟨l', hl', hfinds'⟩ := exists_login_without hpart b
    refine ⟨l, l', hl, hl', havoids hl, havoids hl', ?_⟩
    rw [evaluate_search hf hb hc hl, evaluate_search hf hb hc hl', hfinds, hfinds']
    simp

/-- No literal is one of two logins, and yet a search for their first letter tells them apart. -/
theorem first_letter_decides :
    ∃ l l' e, IsLogin l ∧ IsLogin l' ∧
      Expression.parse? "startsWith(github.actor, 'a')" = some e ∧
      (∀ s, .text s ∈ e.parts → s ≠ l ∧ s ≠ l') ∧
      (∀ x, .number x ∈ e.parts → x.display ≠ l ∧ x.display ≠ l') ∧
      Satisfiability.of "startsWith(github.actor, 'a')" (outsider l) ≠
        Satisfiability.of "startsWith(github.actor, 'a')" (outsider l') := by
  have hparse : Expression.parse? "startsWith(github.actor, 'a')" =
      some (.call "startsWith" [.name "github.actor", .text "a"]) :=
    (Expression.parse?_ofList _).trans rfl
  have ha : IsLogin "a000000000000000" := by decide
  have hb : IsLogin "b000000000000000" := by decide
  have hof {l : String} (hl : IsLogin l) :
      Satisfiability.of "startsWith(github.actor, 'a')" (outsider l) =
        .definite (Text.startsWith (Text.lowercase "a") l) := by
    have hactor : "github.actor" ∈ Environment.actorContexts := by simp [Environment.actorContexts]
    have hstarts : Builtin.ofName? "startsWith" = some .startsWith := by decide
    have hvalue := evaluate_search (s := "a") hstarts rfl hactor hl
    rw [Satisfiability.of, Expression.isBlankText_of_parse? hparse, hparse]
    simp [hvalue, Builtin.finds]
  refine ⟨_, _, _, ha, hb, hparse, fun s hs => ?_, fun x hx => ?_, ?_⟩
  · obtain rfl : s = "a" := by simpa [Expression.parts, Expression.partsOfAll] using hs
    decide
  · simp [Expression.parts, Expression.partsOfAll] at hx
  · rw [hof ha, hof hb]
    decide

end Evaluation

end WorkflowAudit
