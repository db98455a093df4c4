import WorkflowAudit.Proofs.Evaluation.Choice
import WorkflowAudit.Proofs.Expression.SpelledTrees

/-! Trees that differ in the case of letters have values that differ in the case of letters only, and
of an environment nothing counts but what it binds the contexts of the tree to. A value shows such a
difference in the origin of a wildcard and nowhere else, and no operator and no function looks into
an origin. -/

namespace WorkflowAudit

lemma Expression.isGithub_congr {a b : String} (h : Text.sameIgnoringCase a b = true) :
    isGithub a = isGithub b := by
  have hdot : ('.' : Char).isAlpha = false := by decide
  have hparts := Text.forall₂_splitChars hdot h
  rw [isGithub, isGithub]
  generalize Text.splitChars '.' a.toList = ps, Text.splitChars '.' b.toList = qs at hparts
  cases hparts with
  | nil => rfl
  | cons hhead _ =>
    refine Text.sameIgnoringCase_congr_left (Text.sameIgnoringCase_iff.mpr ?_)
    rw [String.toList_ofList, String.toList_ofList]
    exact hhead

namespace Value

open Evaluation (Builtin)

/-- Equal but for the letter case of the origin of a wildcard. -/
inductive Alike : Value → Value → Prop
  | refl (v : Value) : Alike v v
  | wildcard {a b : String} : Text.sameIgnoringCase a b = true → Alike (.wildcard a) (.wildcard b)

variable {v v' w w' : Value} {o : String}

lemma meets_wildcard (r : Value → Value → Bool) (v : Value) (o : String) :
    meets r v (.wildcard o) = true ∧ meets r (.wildcard o) v = true := by
  simp [meets, outcomes, isWildcard]

lemma outcomeContains_wildcard (v : Value) (a b : String) :
    outcomeContains (.wildcard a) v = outcomeContains (.wildcard b) v := by
  cases v <;> simp [outcomeContains, textContains, couldEqual, meets_wildcard, outcomes, isWildcard]

namespace Alike

lemma bool {p q : Bool} (h : p = q) : Alike (.bool p) (.bool q) := h ▸ .refl _

lemma isWildcard_eq (h : Alike v w) : v.isWildcard = w.isWildcard := by
  cases h <;> rfl

lemma truthy_eq (h : Alike v w) : v.truthy = w.truthy := by
  cases h <;> rfl

lemma falsy_eq (h : Alike v w) : v.falsy = w.falsy := by
  cases h <;> rfl

lemma meets_eq (r : Value → Value → Bool) (hv : Alike v v') (hw : Alike w w') :
    meets r v w = meets r v' w' := by
  cases hv with
  | wildcard _ => rw [(meets_wildcard r _ _).2, (meets_wildcard r _ _).2]
  | refl v =>
    cases hw with
    | refl w => rfl
    | wildcard _ => rw [(meets_wildcard r _ _).1, (meets_wildcard r _ _).1]

lemma couldContain_eq (hv : Alike v v') (hw : Alike w w') :
    v.couldContain w = v'.couldContain w' := by
  cases hw with
  | refl w => cases hv <;> rfl
  | @wildcard a b _ =>
    have hitem := funext (outcomeContains_wildcard · a b)
    rw [couldContain, couldContain, hitem]
    cases hv <;> rfl

lemma affix (matched : String → String → Bool) (hv : Alike v v') (hw : Alike w w') :
    Alike (Builtin.affix matched v w) (Builtin.affix matched v' w') := by
  have hequal : v.couldEqual w = v'.couldEqual w' := meets_eq agrees hv hw
  cases hv with
  | wildcard _ => exact .bool hequal
  | refl v =>
    cases hw with
    | refl w => exact .refl _
    | wildcard _ => cases v <;> exact .bool hequal

lemma parsed (h : Alike v w) : Alike (Builtin.parsed v) (Builtin.parsed w) := by
  cases h with
  | refl v => exact .refl _
  | wildcard h => exact .wildcard h

end Alike

end Value

/-! ### Trees that are the same but for the case of letters -/

namespace Expression

variable {a : String} {e e' : Expression}

lemma exists_name_of_same (h : (Expression.name a).same e' = true) :
    ∃ b, e' = .name b ∧ Text.sameIgnoringCase a b = true := by
  cases e' with
  | name b => exact ⟨b, rfl, by simpa [same] using h⟩
  | _ => simp [same] at h

lemma isContext_eq_of_same (h : e.same e' = true) : e.isContext = e'.isContext := by
  cases e with
  | name a =>
    obtain ⟨b, rfl, hab⟩ := exists_name_of_same h
    exact isGithub_congr hab
  | _ =>
    cases e' with
    | name b => simp [same] at h
    | _ => rfl

end Expression

namespace Evaluation

open Value (Alike)

/-- Both fail, or both succeed with results in the relation. -/
inductive Outcomes {α : Type} (related : α → α → Prop) :
    Except EvalError α → Except EvalError α → Prop
  | failed (x y : EvalError) : Outcomes related (.error x) (.error y)
  | succeeded {v w : α} : related v w → Outcomes related (.ok v) (.ok w)

variable {env : Environment} {lhs lhs' rhs rhs' : Expression} {l l' r r' : Value} {a b f g : String}

lemma comparedByName_congr (hlhs : lhs.same lhs' = true) (hrhs : rhs.same rhs' = true)
    (hl : Alike l l') (hr : Alike r r') :
    comparedByName lhs rhs l r = comparedByName lhs' rhs' l' r' := by
  have hctx := Expression.isContext_eq_of_same hlhs
  have hctx' := Expression.isContext_eq_of_same hrhs
  by_cases hboth : lhs.isContext = true ∧ rhs.isContext = true
  · cases lhs with
    | name a =>
      cases rhs with
      | name b =>
        obtain ⟨a', rfl, ha⟩ := Expression.exists_name_of_same hlhs
        obtain ⟨b', rfl, hb⟩ := Expression.exists_name_of_same hrhs
        rw [comparedByName, comparedByName, Expression.isGithub_congr ha,
          Expression.isGithub_congr hb, hl.isWildcard_eq, hr.isWildcard_eq,
          Text.sameIgnoringCase_congr_left ha, Text.sameIgnoringCase_congr_right hb]
      | _ => cases hboth.2
    | _ => cases hboth.1
  · rw [comparedByName_eq_none hboth, comparedByName_eq_none (by rwa [← hctx, ← hctx'])]

lemma operate_congr (op : BinaryOp) (hlhs : lhs.same lhs' = true) (hrhs : rhs.same rhs' = true)
    (hl : Alike l l') (hr : Alike r r') : operate op lhs rhs l r = operate op lhs' rhs' l' r' := by
  have hname := comparedByName_congr hlhs hrhs hl hr
  cases op with
  | and => rw [operate, operate, hl.truthy_eq, hr.truthy_eq]
  | or => rw [operate, operate, hl.truthy_eq, hr.truthy_eq]
  | equal => rw [operate, operate, hname, Value.couldEqual, Value.couldEqual, hl.meets_eq _ hr]
  | notEqual => rw [operate, operate, hname, Value.couldDiffer, Value.couldDiffer, hl.meets_eq _ hr]

lemma nameValue_outcomes (env : Environment) (h : Text.sameIgnoringCase a b = true) :
    Outcomes Alike (nameValue env a) (nameValue env b) := by
  rw [nameValue, nameValue, Text.sameIgnoringCase_congr_left h (c := "true"),
    Text.sameIgnoringCase_congr_left h (c := "false"), Expression.isGithub_congr h,
    Environment.lookup, Environment.lookup, Text.fold_eq_iff.mpr h]
  split_ifs
  · exact .succeeded (.refl _)
  · exact .succeeded (.refl _)
  · cases env.bindings.get? (Text.fold b) with
    | none => exact .succeeded (.wildcard h)
    | some v => exact .succeeded (.refl v)
  · exact .failed _ _

lemma result?_congr (f : Builtin) {vs ws : List Value} (h : List.Forall₂ Alike vs ws) :
    Option.Rel Alike (f.result? vs) (f.result? ws) := by
  -- the cases are the numbers of arguments, with all above two in one
  obtain _ | ⟨hv, _ | ⟨hw, _ | ⟨_, _⟩⟩⟩ := h
  · cases f with
    | status answer => exact .some (.refl _)
    | _ => exact .none
  · cases f with
    | fromJson => exact .some hv.parsed
    | toJson | format => exact .some hv
    | _ => exact .none
  · cases f with
    | contains => exact .some (.bool (hv.couldContain_eq hw))
    | startsWith | endsWith => exact .some (hv.affix _ hw)
    | format => exact .some hw
    | _ => exact .none
  · cases f with
    | format => exact .some hw
    | _ => exact .none

lemma call_outcomes (hf : Text.sameIgnoringCase f g = true) {vs ws : List Value}
    (h : List.Forall₂ Alike vs ws) : Outcomes Alike (call f vs) (call g ws) := by
  have hname : Builtin.ofName? f = Builtin.ofName? g := by
    rw [Builtin.ofName?, Builtin.ofName?]
    simp only [Text.sameIgnoringCase_congr_right hf]
  rw [call, call, hname]
  cases Builtin.ofName? g with
  | none => exact .failed _ _
  | some f =>
    have hresult := result?_congr f h
    dsimp only
    generalize f.result? vs = x, f.result? ws = y at hresult
    cases hresult with
    | none => exact .failed _ _
    | some hvw => exact .succeeded hvw

mutual

lemma evaluate_outcomes (env : Environment) : (e e' : Expression) → e.same e' = true →
    e.IsSpellable → e'.IsSpellable → Outcomes Alike (evaluate env e) (evaluate env e')
  | .number x, e', h, hx, hy => by
    cases e' with
    | number y =>
      rw [Expression.same] at h
      rw [Expression.eq_of_hasSpelling hx hy h]
      exact .succeeded (.refl _)
    | _ => simp [Expression.same] at h
  | .text s, e', h, _, _ => by
    cases e' with
    | text t =>
      rw [Expression.same, beq_iff_eq] at h
      rw [h]
      exact .succeeded (.refl _)
    | _ => simp [Expression.same] at h
  | .name s, e', h, _, _ => by
    obtain ⟨t, rfl, hst⟩ := Expression.exists_name_of_same h
    exact nameValue_outcomes env hst
  | .call f args, e', h, hs, hs' => by
    cases e' with
    | call g args' =>
      rw [Expression.same, Bool.and_eq_true] at h
      have hargs := evaluateAll_outcomes env args args' h.2 hs.2 hs'.2
      rw [evaluate, evaluate]
      generalize evaluateAll env args = x, evaluateAll env args' = y at hargs
      cases hargs with
      | failed _ _ => exact .failed _ _
      | succeeded hvs => exact call_outcomes h.1 hvs
    | _ => simp [Expression.same] at h
  | .not a, e', h, hs, hs' => by
    cases e' with
    | not b =>
      rw [Expression.same] at h
      have hab := evaluate_outcomes env a b h hs hs'
      rw [evaluate, evaluate]
      generalize evaluate env a = x, evaluate env b = y at hab
      cases hab with
      | failed _ _ => exact .failed _ _
      | succeeded hv => exact .succeeded (.bool hv.falsy_eq)
    | _ => simp [Expression.same] at h
  | .binary op lhs rhs, e', h, hs, hs' => by
    cases e' with
    | binary op' lhs' rhs' =>
      rw [Expression.same, Bool.and_eq_true, Bool.and_eq_true, beq_iff_eq] at h
      obtain ⟨⟨rfl, hl⟩, hr⟩ := h
      have hlhs := evaluate_outcomes env lhs lhs' hl hs.1 hs'.1
      have hrhs := evaluate_outcomes env rhs rhs' hr hs.2 hs'.2
      rw [evaluate, evaluate]
      generalize evaluate env lhs = x, evaluate env lhs' = x' at hlhs
      generalize evaluate env rhs = y, evaluate env rhs' = y' at hrhs
      cases hlhs with
      | failed _ _ => exact .failed _ _
      | succeeded hvl =>
        cases hrhs with
        | failed _ _ => exact .failed _ _
        | succeeded hvr => exact .succeeded (.bool (operate_congr op hl hr hvl hvr))
    | _ => simp [Expression.same] at h

lemma evaluateAll_outcomes (env : Environment) : (es es' : List Expression) →
    Expression.sameAll es es' = true → Expression.AreSpellable es → Expression.AreSpellable es' →
    Outcomes (List.Forall₂ Alike) (evaluateAll env es) (evaluateAll env es')
  | [], es', h, _, _ => by
    cases es' with
    | nil => exact .succeeded .nil
    | cons _ _ => simp [Expression.sameAll] at h
  | e :: es, es', h, hs, hs' => by
    cases es' with
    | nil => simp [Expression.sameAll] at h
    | cons e' es' =>
      rw [Expression.sameAll, Bool.and_eq_true] at h
      have hhead := evaluate_outcomes env e e' h.1 hs.1 hs'.1
      have htail := evaluateAll_outcomes env es es' h.2 hs.2 hs'.2
      rw [evaluateAll, evaluateAll]
      generalize evaluate env e = x, evaluate env e' = x' at hhead
      generalize evaluateAll env es = y, evaluateAll env es' = y' at htail
      cases hhead with
      | failed _ _ => exact .failed _ _
      | succeeded hv =>
        cases htail with
        | failed _ _ => exact .failed _ _
        | succeeded hvs => exact .succeeded (.cons hv hvs)

end

/-! ### What an environment is asked for -/

mutual

lemma evaluate_congr {env env' : Environment} : (e : Expression) →
    (∀ c ∈ e.contexts, env.lookup c = env'.lookup c) → evaluate env e = evaluate env' e
  | .number x, _ => by rw [evaluate, evaluate]
  | .text s, _ => by rw [evaluate, evaluate]
  | .name s, h => by
    rw [evaluate, evaluate, nameValue, nameValue]
    split_ifs with htrue hfalse hgithub
    · rfl
    · rfl
    · have hmem : s ∈ (Expression.name s).contexts := by
        rw [Expression.contexts, if_neg (by simp [Expression.isBoolean, htrue, hfalse])]
        exact List.mem_singleton_self s
      rw [h s hmem]
    · rfl
  | .call f args, h => by rw [evaluate, evaluate, evaluateAll_congr args h]
  | .not a, h => by rw [evaluate, evaluate, evaluate_congr a h]
  | .binary op lhs rhs, h => by
    rw [Expression.contexts, List.forall_mem_append] at h
    rw [evaluate, evaluate, evaluate_congr lhs h.1, evaluate_congr rhs h.2]

lemma evaluateAll_congr {env env' : Environment} : (es : List Expression) →
    (∀ c ∈ Expression.contextsOfAll es, env.lookup c = env'.lookup c) →
    evaluateAll env es = evaluateAll env' es
  | [], _ => by rw [evaluateAll, evaluateAll]
  | e :: es, h => by
    rw [Expression.contextsOfAll, List.forall_mem_append] at h
    rw [evaluateAll, evaluateAll, evaluate_congr e h.1, evaluateAll_congr es h.2]

end

lemma evaluate_bindAll {e : Expression} {contexts : List String}
    (h : ∀ c ∈ contexts, ∀ m ∈ e.contexts, Text.sameIgnoringCase c m = false) (env : Environment)
    (values : String → Value) : evaluate (env.bindAll contexts values) e = evaluate env e := by
  refine evaluate_congr e fun m hm => Environment.lookup_bindAll_of_notMem values ?_ env
  rw [List.mem_map]
  rintro ⟨c, hc, hfold⟩
  exact Bool.false_ne_true ((h c hc m hm).symm.trans (Text.fold_eq_iff.mp hfold))

/-- Trees that are read and are the same but for the case of letters have values that are alike,
under any two environments that agree on the contexts mentioned. -/
theorem same_trees_evaluate_alike {s s' : String} {e e' : Expression} {env env' : Environment}
    (hs : Expression.parse? s = some e) (hs' : Expression.parse? s' = some e')
    (hsame : e.same e' = true) (henv : ∀ c ∈ e.contexts, env.lookup c = env'.lookup c) :
    Outcomes Alike (evaluate env e) (evaluate env' e') ∧
      (∀ v v', evaluate env e = .ok v → evaluate env' e' = .ok v' →
        v.truthy = v'.truthy ∧ v.falsy = v'.falsy) ∧
      ∀ contexts values,
        (∀ c ∈ contexts, ∀ m ∈ e.contexts, Text.sameIgnoringCase c m = false) →
        evaluate (env.bindAll contexts values) e = evaluate env e := by
  have houtcomes : Outcomes Alike (evaluate env e) (evaluate env' e') := by
    rw [evaluate_congr e henv]
    exact evaluate_outcomes env' e e' hsame (Expression.isSpellable_of_parse? hs)
      (Expression.isSpellable_of_parse? hs')
  refine ⟨houtcomes, ?_, fun contexts values h => evaluate_bindAll h env values⟩
  intro v v' hv hv'
  rw [hv, hv'] at houtcomes
  cases houtcomes with
  | succeeded halike => exact ⟨halike.truthy_eq, halike.falsy_eq⟩

/-- Two spellings of one call, with a number written in two ways. -/
theorem formatted_branch_alike :
    let one : Expression := .number (.ofNat 1)
    let e := Expression.call "format" [.text "\x7b0\x7d", .name "github.head_ref", one]
    let e' := Expression.call "FORMAT" [.text "\x7b0\x7d", .name "GitHub.HEAD_REF", one]
    let env := Environment.empty
    let env' := env.bind "github.ref" (.text "main")
    Expression.parse? "format('\x7b0\x7d', github.head_ref, 1.0)" = some e ∧
      Expression.parse? "FORMAT('\x7b0\x7d', GitHub.HEAD_REF, 1)" = some e' ∧
      e.same e' = true ∧ (∀ c ∈ e.contexts, env.lookup c = env'.lookup c) ∧
      Outcomes Alike (evaluate env e) (evaluate env' e') ∧
      evaluate env e = .ok (.wildcard "github.head_ref") := by
  intro one e e' env env'
  have hs : Expression.parse? "format('\x7b0\x7d', github.head_ref, 1.0)" = some e :=
    (Expression.parse?_ofList _).trans rfl
  have hs' : Expression.parse? "FORMAT('\x7b0\x7d', GitHub.HEAD_REF, 1)" = some e' :=
    (Expression.parse?_ofList _).trans rfl
  have henv : ∀ c ∈ e.contexts, env.lookup c = env'.lookup c := by
    have hcontexts : e.contexts = ["github.head_ref"] := rfl
    rw [hcontexts, List.forall_mem_singleton]
    rfl
  exact ⟨hs, hs', rfl, henv, (same_trees_evaluate_alike hs hs' rfl henv).1, rfl⟩

end Evaluation

end WorkflowAudit
