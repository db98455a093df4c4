import Mathlib.Data.List.Nodup
import Mathlib.Data.List.TakeWhile
import WorkflowAudit.Evaluation.Basic
import WorkflowAudit.Proofs.Expression.Reading
import WorkflowAudit.Proofs.Text.LetterCase

/-! What an outsider may choose. An environment leaves some contexts open; a choice is an environment
that binds each of them to a single value, and the same evaluation runs in both. -/

namespace WorkflowAudit

/-! ### Values without a choice in them -/

def Numeral.isNaN : Numeral → Bool
  | .real x => x.isNaN
  | _ => false

mutual

def Json.hasNoNaN : Json → Bool
  | .number n => !n.isNaN
  | .array items => Json.haveNoNaN items
  | .object fields => Json.fieldsHaveNoNaN fields
  | _ => true

def Json.haveNoNaN : List Json → Bool
  | [] => true
  | v :: rest => Json.hasNoNaN v && Json.haveNoNaN rest

def Json.fieldsHaveNoNaN : List (String × Json) → Bool
  | [] => true
  | (_, v) :: rest => Json.hasNoNaN v && Json.fieldsHaveNoNaN rest

end

namespace Value

mutual

/-- Neither a wildcard nor a list of options at any depth. -/
def isConcrete : Value → Bool
  | .list items => areConcrete items
  | .wildcard _ | .flexible _ => false
  | _ => true

def areConcrete : List Value → Bool
  | [] => true
  | v :: rest => isConcrete v && areConcrete rest

end

mutual

/-- Concrete, and without NaN at any depth. -/
def isDefinite : Value → Bool
  | .number x => !x.isNaN
  | .list items => areDefinite items
  | .object fields => Json.fieldsHaveNoNaN fields
  | .wildcard _ | .flexible _ => false
  | _ => true

def areDefinite : List Value → Bool
  | [] => true
  | v :: rest => isDefinite v && areDefinite rest

end

def isScalar : Value → Bool
  | .bool _ | .text _ | .number _ => true
  | _ => false

/-- A definite value, a wildcard, or a list of at least one definite option. -/
def isBinding : Value → Bool
  | .wildcard _ => true
  | .flexible options => !options.isEmpty && options.all isDefinite
  | v => v.isDefinite

/-- The values that a bound value may turn out to be, where a wildcard may be any `free` one. -/
def Admits (free : Value → Bool) : Value → Value → Prop
  | .wildcard _, v => free v = true
  | .flexible options, v => v ∈ options
  | bound, v => v = bound

end Value

namespace Environment

def IsWellBound (env : Environment) : Prop :=
  ∀ name v, env.lookup name = some v → v.isBinding = true

def Allows (free : Value → Bool) (env : Environment) (name : String) (v : Value) : Prop :=
  match env.lookup name with
  | some bound => bound.Admits free v
  | none => free v = true

/-- `chosen` binds every context of the expression to a value that `env` allows for it. -/
def Realizes (free : Value → Bool) (env chosen : Environment) (e : Expression) : Prop :=
  ∀ name ∈ e.contexts, Expression.isGithub name = true →
    ∃ v, chosen.lookup name = some v ∧ env.Allows free name v

end Environment

def BinaryOp.isComparison : BinaryOp → Bool
  | .equal | .notEqual => true
  | .and | .or => false

def BinaryOp.relates (op : BinaryOp) (x y : Value) : Bool :=
  match op with
  | .notEqual => !Value.agrees x y
  | _ => Value.agrees x y

namespace Expression

inductive IsTerm : Expression → Prop
  | number (x) : IsTerm (.number x)
  | text (s) : IsTerm (.text s)
  | boolean {s} : isBoolean s = true → IsTerm (.name s)
  | context {s} : isGithub s = true → IsTerm (.name s)

def isContext : Expression → Bool
  | .name s => isGithub s
  | _ => false

/-- Terms under the operators and `contains`, nested in any way. Two contexts are not compared. -/
inductive IsSupported : Expression → Prop
  | term {e} : IsTerm e → IsSupported e
  | not {e} : IsSupported e → IsSupported (.not e)
  | binary {op l r} : IsSupported l → IsSupported r →
      (op.isComparison = true → ¬ (l.isContext = true ∧ r.isContext = true)) →
      IsSupported (.binary op l r)
  | contains {f a b} : Text.sameIgnoringCase "contains" f = true → IsSupported a → IsSupported b →
      IsSupported (.call f [a, b])

end Expression

namespace Evaluation

def Holds (env : Environment) (e : Expression) : Prop :=
  ∃ v, evaluate env e = .ok v ∧ v.truthy = true

end Evaluation

/-! ### Bindings -/

namespace Environment

lemma lookup_bind (env : Environment) (context name : String) (v : Value) :
    (env.bind context v).lookup name =
      if Text.fold name = Text.fold context then some v else env.lookup name :=
  Assoc.get?_insert (Text.fold context) (Text.fold name) v env.bindings

lemma lookup_bindAll_of_notMem {names : List String} {name : String} (pick : String → Value)
    (h : Text.fold name ∉ names.map Text.fold) (env : Environment) :
    (env.bindAll names pick).lookup name = env.lookup name := by
  induction names generalizing env with
  | nil => rfl
  | cons n rest ih =>
    rw [List.map_cons, List.mem_cons, not_or] at h
    have hrest := ih h.2 (env.bind n (pick n))
    rw [lookup_bind, if_neg h.1] at hrest
    exact hrest

lemma lookup_bindAll {names : List String} (hn : (names.map Text.fold).Nodup) {name : String}
    (hmem : name ∈ names) (pick : String → Value) (env : Environment) :
    (env.bindAll names pick).lookup name = some (pick name) := by
  induction names generalizing env with
  | nil => cases hmem
  | cons n rest ih =>
    rw [List.map_cons, List.nodup_cons] at hn
    rcases List.mem_cons.mp hmem with rfl | hmem
    · have hrest := lookup_bindAll_of_notMem pick hn.1 (env.bind name (pick name))
      rw [lookup_bind, if_pos rfl] at hrest
      exact hrest
    · exact ih hn.2 hmem (env.bind n (pick n))

lemma allows_iff {free : Value → Bool} {env : Environment} {name : String} {v : Value} :
    env.Allows free name v ↔ ((env.lookup name).getD (.wildcard name)).Admits free v := by
  unfold Allows
  cases env.lookup name <;> exact Iff.rfl

lemma IsWellBound.isBinding {env : Environment} (h : env.IsWellBound) (name : String) :
    ((env.lookup name).getD (.wildcard name)).isBinding = true := by
  cases hlookup : env.lookup name with
  | none => rfl
  | some bound => exact h name bound hlookup

lemma isWellBound_empty : empty.IsWellBound := by
  intro name v h
  cases h

lemma IsWellBound.bind {env : Environment} (h : env.IsWellBound) (context : String) {v : Value}
    (hv : v.isBinding = true) : (env.bind context v).IsWellBound := by
  intro name w hw
  rw [lookup_bind] at hw
  split at hw
  · cases hw
    exact hv
  · exact h name w hw

lemma IsWellBound.bindAll {env : Environment} (h : env.IsWellBound) (names : List String)
    {value : String → Value} (hv : ∀ name, (value name).isBinding = true) :
    (env.bindAll names value).IsWellBound := by
  induction names generalizing env with
  | nil => exact h
  | cons n rest ih => exact ih (h.bind n (hv n))

lemma isBinding_options {names : List String} (h : names ≠ []) :
    (options names).isBinding = true := by
  have hall : (names.map Value.text).all Value.isDefinite = true := by
    simp [List.all_eq_true, Value.isDefinite]
  cases names with
  | nil => exact absurd rfl h
  | cons n rest => exact hall

theorem outsider_isWellBound (login : String) : (outsider login).IsWellBound := by
  have hactors := isWellBound_empty.bindAll actorContexts
    (show ∀ name, ((fun _ => .text login : String → Value) name).isBinding = true from fun _ => rfl)
  have hassociations := hactors.bindAll associationContexts
    fun _ => isBinding_options (show authorAssociations ≠ [] by simp [authorAssociations])
  have hfreeform := hassociations.bindAll freeformContexts
    (show ∀ name, (Value.wildcard name).isBinding = true from fun _ => rfl)
  have hforks := hfreeform.bindAll forkContexts
    (show ∀ name, ((fun _ => .bool true : String → Value) name).isBinding = true from fun _ => rfl)
  have hname := hforks.bind "github.event_name"
    (isBinding_options (show eventNames ≠ [] by simp [eventNames]))
  have haction := hname.bind "github.event.action"
    (isBinding_options (show eventActions ≠ [] by simp [eventActions]))
  have hevent := haction.bind "github.event.workflow_run.event"
    (isBinding_options (show workflowRunEvents ≠ [] by simp [workflowRunEvents]))
  have hconclusion := hevent.bind "github.event.workflow_run.conclusion"
    (isBinding_options (show workflowRunConclusions ≠ [] by simp [workflowRunConclusions]))
  exact hconclusion.bindAll pullRequestFlags fun _ => rfl

lemma fold_freeformContexts : freeformContexts.map Text.fold = freeformContexts := by
  repeat refine congrArg₂ List.cons (Text.fold_ofList _) ?_
  rfl

lemma outsider_lookup_freeform (login : String) {name : String} (h : name ∈ freeformContexts) :
    (outsider login).lookup name = some (.wildcard name) := by
  have hflags : pullRequestFlags.map Text.fold = pullRequestFlags := by
    repeat refine congrArg₂ List.cons (Text.fold_ofList _) ?_
    rfl
  have hforks : forkContexts.map Text.fold = forkContexts := by
    repeat refine congrArg₂ List.cons (Text.fold_ofList _) ?_
    rfl
  have hconclusion : Text.fold "github.event.workflow_run.conclusion" =
      "github.event.workflow_run.conclusion" := Text.fold_ofList _
  have hevent : Text.fold "github.event.workflow_run.event" = "github.event.workflow_run.event" :=
    Text.fold_ofList _
  have haction : Text.fold "github.event.action" = "github.event.action" := Text.fold_ofList _
  have hname : Text.fold "github.event_name" = "github.event_name" := Text.fold_ofList _
  have hfold : Text.fold name = name :=
    List.map_inj_left.mp (fold_freeformContexts.trans (List.map_id _).symm) name h
  have hfresh : ∀ name ∈ freeformContexts, name ∉ pullRequestFlags ∧
      name ≠ "github.event.workflow_run.conclusion" ∧ name ≠ "github.event.workflow_run.event" ∧
      name ≠ "github.event.action" ∧ name ≠ "github.event_name" ∧ name ∉ forkContexts := by
    simp [freeformContexts, pullRequestFlags, forkContexts]
  have hdistinct : (freeformContexts.map Text.fold).Nodup := by
    rw [fold_freeformContexts]
    simp [freeformContexts]
  obtain ⟨h₁, h₂, h₃, h₄, h₅, h₆⟩ := hfresh name h
  unfold outsider
  rw [lookup_bindAll_of_notMem _ (by rwa [hfold, hflags]), lookup_bind,
    if_neg (by rwa [hfold, hconclusion]), lookup_bind, if_neg (by rwa [hfold, hevent]),
    lookup_bind, if_neg (by rwa [hfold, haction]), lookup_bind, if_neg (by rwa [hfold, hname]),
    lookup_bindAll_of_notMem _ (by rwa [hfold, hforks]), lookup_bindAll hdistinct h]

end Environment

/-! ### Names -/

namespace Expression

lemma length_splitChars_head_le (sep : Char) (cs : List Char) :
    ∀ part ∈ (Text.splitChars sep cs).head?, part.length ≤ cs.length := by
  induction cs with
  | nil => simp [Text.splitChars]
  | cons c cs ih =>
    intro part hpart
    by_cases hc : c = sep
    · simp only [Text.splitChars, hc, if_true, List.head?_cons, Option.mem_some_iff] at hpart
      simp [← hpart]
    · cases hs : Text.splitChars sep cs with
      | nil =>
        simp only [Text.splitChars, hc, if_false, hs, List.head?_cons, Option.mem_some_iff] at hpart
        simp [← hpart]
      | cons p ps =>
        simp only [Text.splitChars, hc, if_false, hs, List.head?_cons, Option.mem_some_iff] at hpart
        have hp := ih p (by simp [hs])
        simp [← hpart, hp]

/-- A context is at least as long as the word it starts with, and so longer than a truth value. -/
lemma length_of_isGithub {s : String} (h : isGithub s = true) : 6 ≤ s.toList.length := by
  rw [isGithub] at h
  split at h
  · next head rest hs =>
    have hhead := Text.length_eq_of_sameIgnoringCase h
    have hle := length_splitChars_head_le '.' s.toList head (by simp [hs])
    simp only [String.toList_ofList] at hhead
    rw [hhead] at hle
    exact hle
  · exact absurd h (by simp)

lemma isBoolean_of_isGithub {s : String} (h : isGithub s = true) : isBoolean s = false := by
  have hlen := length_of_isGithub h
  rw [isBoolean, Bool.or_eq_false_iff]
  constructor <;> rw [Bool.eq_false_iff] <;> intro hs <;>
    have hs' := Text.length_eq_of_sameIgnoringCase hs <;> simp at hs' <;> omega

lemma isBlankText_of_parse? {s : String} {e : Expression} (h : parse? s = some e) :
    Text.isBlankText s = false := by
  rw [Bool.eq_false_iff]
  intro hblank
  have htrim : Text.trimChars s.toList = [] := by
    have hall : ∀ c ∈ s.toList, Text.isBlank c = true := List.all_eq_true.mp hblank
    have hstart : Text.trimStartChars s.toList = [] := List.dropWhile_eq_nil_iff.mpr hall
    rw [Text.trimChars, hstart]
    rfl
  have hnone : parse? s = none := by
    rw [parse?, unfence, htrim]
    rfl
  rw [hnone] at h
  cases h

end Expression

namespace Evaluation

/-! ### Evaluation of terms and of what is built from them -/

lemma evaluate_boolean {s : String} (h : Expression.isBoolean s = true) :
    ∃ b, ∀ env, evaluate env (.name s) = .ok (.bool b) := by
  rcases Bool.or_eq_true _ _ ▸ h with hs | hs
  · exact ⟨true, fun env => by rw [evaluate, nameValue, if_pos hs]⟩
  · by_cases ht : Text.sameIgnoringCase s "true" = true
    · exact ⟨true, fun env => by rw [evaluate, nameValue, if_pos ht]⟩
    · exact ⟨false, fun env => by rw [evaluate, nameValue, if_neg ht, if_pos hs]⟩

lemma evaluate_context {s : String} (h : Expression.isGithub s = true) (env : Environment) :
    evaluate env (.name s) = .ok ((env.lookup s).getD (.wildcard s)) := by
  obtain ⟨ht, hf⟩ := Bool.or_eq_false_iff.mp (Expression.isBoolean_of_isGithub h)
  rw [evaluate, nameValue, ht, hf, h]
  rfl

lemma evaluate_not {env : Environment} {e : Expression} {v : Value} (h : evaluate env e = .ok v) :
    evaluate env (.not e) = .ok (.bool v.falsy) := by
  rw [evaluate, h]

lemma evaluate_binary {env : Environment} {op : BinaryOp} {lhs rhs : Expression} {l r : Value}
    (hl : evaluate env lhs = .ok l) (hr : evaluate env rhs = .ok r) :
    evaluate env (.binary op lhs rhs) = .ok (.bool (operate op lhs rhs l r)) := by
  rw [evaluate, hl, hr]

lemma call_contains {f : String} (h : Text.sameIgnoringCase "contains" f = true) (a b : Value) :
    call f [a, b] = .ok (.bool (a.couldContain b)) := by
  have hf : Builtin.ofName? f = some .contains := by
    simp [Builtin.ofName?, Builtin.table, h]
  rw [call, hf]
  rfl

lemma evaluate_contains {env : Environment} {f : String} {search item : Expression} {a b : Value}
    (hf : Text.sameIgnoringCase "contains" f = true) (ha : evaluate env search = .ok a)
    (hb : evaluate env item = .ok b) :
    evaluate env (.call f [search, item]) = .ok (.bool (a.couldContain b)) := by
  rw [evaluate, evaluateAll, ha, evaluateAll, hb, evaluateAll]
  exact call_contains hf a b

/-- Arguments with values have them one by one. -/
lemma forall₂_of_evaluateAll {env : Environment} {es : List Expression} {vs : List Value}
    (h : evaluateAll env es = .ok vs) :
    List.Forall₂ (fun e v => evaluate env e = .ok v) es vs := by
  induction es generalizing vs with
  | nil =>
    rw [evaluateAll] at h
    cases h
    exact .nil
  | cons e rest ih =>
    rw [evaluateAll] at h
    cases hv : evaluate env e with
    | error err =>
      rw [hv] at h
      cases h
    | ok v =>
      cases hvs : evaluateAll env rest with
      | error err =>
        rw [hv, hvs] at h
        cases h
      | ok ws =>
        rw [hv, hvs] at h
        cases h
        exact .cons hv (ih hvs)

lemma comparedByName_eq_none {lhs rhs : Expression}
    (h : ¬ (lhs.isContext = true ∧ rhs.isContext = true)) (l r : Value) :
    comparedByName lhs rhs l r = none := by
  unfold comparedByName
  split
  · next a b =>
    have hab : (Expression.isGithub a && Expression.isGithub b) = false := by
      rw [Bool.eq_false_iff]
      exact fun hab => h (Bool.and_eq_true _ _ ▸ hab)
    simp [hab]
  · rfl

/-- A term has a value of its own, or it is a context and has the value that this is bound to. -/
lemma literal_or_context {e : Expression} (h : e.IsTerm) :
    (∃ v : Value, v.isScalar = true ∧ e.contexts = [] ∧ ∀ env, evaluate env e = .ok v) ∨
      ∃ s, e = .name s ∧ Expression.isGithub s = true ∧ e.contexts = [s] := by
  cases h with
  | number x => exact .inl ⟨.number x, rfl, by simp [Expression.contexts], fun _ => rfl⟩
  | text s => exact .inl ⟨.text s, rfl, by simp [Expression.contexts], fun _ => rfl⟩
  | boolean hs =>
    obtain ⟨b, hb⟩ := evaluate_boolean hs
    exact .inl ⟨.bool b, rfl, by simp [Expression.contexts, hs], hb⟩
  | @context s hs =>
    exact .inr ⟨s, rfl, hs, by simp [Expression.contexts, Expression.isBoolean_of_isGithub hs]⟩

lemma evaluate_term {e : Expression} (h : e.IsTerm) (env : Environment) :
    ∃ v, evaluate env e = .ok v := by
  rcases literal_or_context h with ⟨v, _, _, hv⟩ | ⟨s, rfl, hs, _⟩
  · exact ⟨v, hv env⟩
  · exact ⟨_, evaluate_context hs env⟩

/-- A supported expression has a value, which is a truth value unless the expression is a term. -/
lemma evaluate_supported {e : Expression} (h : e.IsSupported) (env : Environment) :
    ∃ v, evaluate env e = .ok v ∧ (e.IsTerm ∨ ∃ b, v = .bool b) := by
  induction h with
  | term ht =>
    obtain ⟨v, hv⟩ := evaluate_term ht env
    exact ⟨v, hv, .inl ht⟩
  | not _ ih =>
    obtain ⟨v, hv, _⟩ := ih
    exact ⟨_, evaluate_not hv, .inr ⟨_, rfl⟩⟩
  | binary _ _ _ ihl ihr =>
    obtain ⟨l, hl, _⟩ := ihl
    obtain ⟨r, hr, _⟩ := ihr
    exact ⟨_, evaluate_binary hl hr, .inr ⟨_, rfl⟩⟩
  | contains hf _ _ iha ihb =>
    obtain ⟨a, ha, _⟩ := iha
    obtain ⟨b, hb, _⟩ := ihb
    exact ⟨_, evaluate_contains hf ha hb, .inr ⟨_, rfl⟩⟩

lemma holds_iff {env : Environment} {e : Expression} {v : Value} (h : evaluate env e = .ok v) :
    Holds env e ↔ v.truthy = true := by
  constructor
  · rintro ⟨w, hw, ht⟩
    rw [h] at hw
    cases hw
    exact ht
  · exact fun ht => ⟨v, h, ht⟩

@[simp] lemma truthy_bool (b : Bool) : (Value.bool b).truthy = b := by
  simp [Value.truthy, Value.outcomes, Value.holds]

lemma holds_not {env : Environment} {e : Expression} {v : Value} (h : evaluate env e = .ok v) :
    Holds env (.not e) ↔ v.falsy = true := by
  rw [holds_iff (evaluate_not h), truthy_bool]

lemma holds_and {env : Environment} {lhs rhs : Expression} {l r : Value}
    (hl : evaluate env lhs = .ok l) (hr : evaluate env rhs = .ok r) :
    Holds env (.binary .and lhs rhs) ↔ Holds env lhs ∧ Holds env rhs := by
  rw [holds_iff (evaluate_binary hl hr), holds_iff hl, holds_iff hr, truthy_bool, operate,
    Bool.and_eq_true]

lemma holds_or {env : Environment} {lhs rhs : Expression} {l r : Value}
    (hl : evaluate env lhs = .ok l) (hr : evaluate env rhs = .ok r) :
    Holds env (.binary .or lhs rhs) ↔ Holds env lhs ∨ Holds env rhs := by
  rw [holds_iff (evaluate_binary hl hr), holds_iff hl, holds_iff hr, truthy_bool, operate,
    Bool.or_eq_true]

lemma operate_comparison {op : BinaryOp} (hop : op.isComparison = true) {lhs rhs : Expression}
    (h : ¬ (lhs.isContext = true ∧ rhs.isContext = true)) (l r : Value) :
    operate op lhs rhs l r = Value.meets (op.relates) l r := by
  cases op with
  | equal => rw [operate, comparedByName_eq_none h]; rfl
  | notEqual => rw [operate, comparedByName_eq_none h]; rfl
  | _ => cases hop

lemma isReachable_iff {s : String} {e : Expression} (hs : Expression.parse? s = some e)
    (he : e.IsSupported) (env : Environment) :
    (Satisfiability.of s env).isReachable = true ↔ Holds env e := by
  obtain ⟨v, hv, _⟩ := evaluate_supported he env
  rw [holds_iff hv, Satisfiability.of, Expression.isBlankText_of_parse? hs, hs]
  cases ht : v.truthy <;> simp [hv, ht, Satisfiability.isReachable]

end Evaluation

end WorkflowAudit
