import WorkflowAudit.Proofs.Evaluation.Choice

/-! Where evaluation fails. A name outside the contexts of `github`, a call of an unknown function
and a call with a wrong number of arguments are faults in themselves; the first fault in an
expression, operands before operators, is the error of the whole, whatever the values are. -/

namespace WorkflowAudit

open Evaluation (Builtin EvalError Satisfiability evaluate evaluateAll nameValue call)

namespace Evaluation.Builtin

/-- The numbers of arguments that a function takes. -/
def Takes : Builtin → Nat → Prop
  | contains, n | startsWith, n | endsWith, n => n = 2
  | fromJson, n | toJson, n => n = 1
  | format, n => 1 ≤ n
  | status _, n => n = 0

lemma result?_eq_none_iff (b : Builtin) (vs : List Value) :
    b.result? vs = none ↔ ¬ b.Takes vs.length := by
  match vs with
  | [] => cases b <;> simp [result?, Takes]
  | [_] => cases b <;> simp [result?, Takes]
  | [_, _] => cases b <;> simp [result?, Takes]
  | _ :: _ :: _ :: _ => cases b <;> simp [result?, Takes]

lemma ofName?_eq_none_iff {f : String} :
    ofName? f = none ↔ ∀ known ∈ table, Text.sameIgnoringCase known.1 f = false := by
  simp [ofName?]

end Evaluation.Builtin

namespace Expression

mutual

/-- An expression and all that it is made of, in the order in which they are evaluated. -/
def postorder : Expression → List Expression
  | .call f args => postorderOfAll args ++ [.call f args]
  | .binary op l r => postorder l ++ (postorder r ++ [.binary op l r])
  | .not e => postorder e ++ [.not e]
  | e => [e]

def postorderOfAll : List Expression → List Expression
  | [] => []
  | e :: rest => postorder e ++ postorderOfAll rest

end

/-- What is not supported in itself, with the error that this is. -/
inductive IsFault : Expression → EvalError → Prop
  | name {s : String} : isBoolean s = false → isGithub s = false → IsFault (.name s) (.unsupported s)
  | function {f : String} {args : List Expression} :
      (∀ known ∈ Builtin.table, Text.sameIgnoringCase known.1 f = false) →
      IsFault (.call f args) (.unsupported (f ++ "()"))
  | arity {f : String} {args : List Expression} {b : Builtin} : Builtin.ofName? f = some b →
      ¬ b.Takes args.length → IsFault (.call f args) (.arity f b.arity args.length)

def IsFaulty (e : Expression) : Prop := ∃ err, e.IsFault err

/-- The error of the first fault among expressions in a row. -/
def FirstFault (parts : List Expression) (err : EvalError) : Prop :=
  ∃ before part after, parts = before ++ part :: after ∧ part.IsFault err ∧
    ∀ p ∈ before, ¬ p.IsFaulty

lemma firstFault_append {parts rest : List Expression} {err : EvalError} :
    FirstFault (parts ++ rest) err ↔
      FirstFault parts err ∨ (∀ p ∈ parts, ¬ p.IsFaulty) ∧ FirstFault rest err := by
  constructor
  · rintro ⟨before, part, after, heq, hfault, hbefore⟩
    rcases List.append_eq_append_iff.mp heq with ⟨more, rfl, rfl⟩ | ⟨more, rfl, hrest⟩
    · exact .inr ⟨fun p hp => hbefore p (List.mem_append_left _ hp), more, part, after, rfl, hfault,
        fun p hp => hbefore p (List.mem_append_right _ hp)⟩
    · cases more with
      | nil => exact .inr ⟨by simpa using hbefore, [], part, after, hrest.symm, hfault, by simp⟩
      | cons p more =>
        obtain ⟨rfl, -⟩ := List.cons.inj hrest
        exact .inl ⟨before, part, more, rfl, hfault, hbefore⟩
  · rintro (⟨before, part, after, rfl, hfault, hbefore⟩ |
      ⟨hparts, before, part, after, rfl, hfault, hbefore⟩)
    · exact ⟨before, part, after ++ rest, by simp, hfault, hbefore⟩
    · exact ⟨parts ++ before, part, after, by simp, hfault,
        fun p hp => (List.mem_append.mp hp).elim (hparts p) (hbefore p)⟩

lemma firstFault_singleton {e : Expression} {err : EvalError} :
    FirstFault [e] err ↔ e.IsFault err := by
  constructor
  · rintro ⟨before, part, after, heq, hfault, -⟩
    cases before with
    | nil => exact (List.cons.inj heq).1 ▸ hfault
    | cons p before => simp at heq
  · intro h
    exact ⟨[], e, [], rfl, h, by simp⟩

lemma exists_firstFault_iff {parts : List Expression} :
    (∃ err, FirstFault parts err) ↔ ∃ part ∈ parts, part.IsFaulty := by
  constructor
  · rintro ⟨err, before, part, after, rfl, hfault, -⟩
    exact ⟨part, by simp, err, hfault⟩
  · intro h
    induction parts with
    | nil => simp at h
    | cons p parts ih =>
      by_cases hp : p.IsFaulty
      · obtain ⟨err, hfault⟩ := hp
        exact ⟨err, [], p, parts, rfl, hfault, by simp⟩
      · obtain ⟨part, hmem, hpart⟩ := h
        rcases List.mem_cons.mp hmem with rfl | hmem
        · exact absurd hpart hp
        · obtain ⟨err, hfirst⟩ := ih ⟨part, hmem, hpart⟩
          have hall : ∀ q ∈ [p], ¬ q.IsFaulty := by simpa using hp
          exact ⟨err, firstFault_append.mpr (.inr ⟨hall, hfirst⟩)⟩

end Expression

namespace Evaluation

open Expression

variable {α β : Type} {env : Environment}

/-- An evaluation of parts in a row fails just when one of them is at fault, the first one first. -/
def FailsAt (result : Except EvalError α) (parts : List Expression) : Prop :=
  ∀ err, result = .error err ↔ FirstFault parts err

lemma failsAt_ok {v : α} {parts : List Expression} :
    FailsAt (.ok v) parts ↔ ∀ p ∈ parts, ¬ p.IsFaulty := by
  constructor
  · intro h p hp hfaulty
    obtain ⟨err, hfirst⟩ := exists_firstFault_iff.mpr ⟨p, hp, hfaulty⟩
    cases (h err).mpr hfirst
  · intro h err
    refine ⟨nofun, fun hfirst => ?_⟩
    obtain ⟨p, hp, hfaulty⟩ := exists_firstFault_iff.mp ⟨err, hfirst⟩
    exact absurd hfaulty (h p hp)

lemma FailsAt.andThen {result : Except EvalError α} {result' : Except EvalError β}
    {parts rest : List Expression} (h : FailsAt result parts)
    (herror : ∀ err, result = .error err → result' = .error err)
    (hok : ∀ v, result = .ok v → FailsAt result' rest) : FailsAt result' (parts ++ rest) := by
  intro err
  rw [firstFault_append, ← h err]
  cases hresult : result with
  | error err' =>
    obtain ⟨p, hp, hfaulty⟩ := exists_firstFault_iff.mp ⟨err', (h err').mp hresult⟩
    have hunsound : ¬ ∀ p ∈ parts, ¬ p.IsFaulty := fun hsound => hsound p hp hfaulty
    simp [herror err' hresult, hunsound]
  | ok v =>
    have hsound := failsAt_ok.mp (hresult ▸ h)
    rw [hok v hresult err, and_iff_right hsound]
    simp

lemma failsAt_single {result : Except EvalError α} {e : Expression}
    (h : ∀ err, result = .error err ↔ e.IsFault err) : FailsAt result [e] :=
  fun err => (h err).trans firstFault_singleton.symm

lemma failsAt_ok_single {e : Expression} {v : α} (h : ¬ e.IsFaulty) :
    FailsAt (.ok v : Except EvalError α) [e] :=
  failsAt_ok.mpr (by simpa using h)

lemma failsAt_name (env : Environment) (s : String) : FailsAt (nameValue env s) [.name s] := by
  cases hb : isBoolean s with
  | true =>
    obtain ⟨b, hvalue⟩ := evaluate_boolean hb
    have hok : nameValue env s = .ok (.bool b) := by
      simpa only [evaluate] using hvalue env
    rw [hok]
    apply failsAt_ok_single
    rintro ⟨_, ⟨hfalse, -⟩⟩
    exact Bool.false_ne_true (hfalse.symm.trans hb)
  | false =>
    obtain ⟨ht, hf⟩ := Bool.or_eq_false_iff.mp hb
    rw [nameValue, ht, hf]
    cases hg : isGithub s with
    | true =>
      apply failsAt_ok_single
      rintro ⟨_, ⟨-, hfalse⟩⟩
      exact Bool.false_ne_true (hfalse.symm.trans hg)
    | false =>
      apply failsAt_single
      intro err
      constructor
      · rintro ⟨⟩
        exact .name hb hg
      · rintro ⟨⟩
        rfl

lemma failsAt_call (f : String) {args : List Expression} {vs : List Value}
    (hlength : args.length = vs.length) : FailsAt (call f vs) [.call f args] := by
  cases hf : Builtin.ofName? f with
  | none =>
    apply failsAt_single
    intro err
    simp only [call, hf]
    constructor
    · rintro ⟨⟩
      exact .function (Builtin.ofName?_eq_none_iff.mp hf)
    · rintro (_ | _ | ⟨hf', -⟩)
      · rfl
      · cases hf.symm.trans hf'
  | some b =>
    have hknown : ¬ ∀ known ∈ Builtin.table, Text.sameIgnoringCase known.1 f = false := by
      rw [← Builtin.ofName?_eq_none_iff, hf]
      simp
    have hresult := b.result?_eq_none_iff vs
    rw [← hlength] at hresult
    cases hvalue : b.result? vs with
    | none =>
      apply failsAt_single
      intro err
      simp only [call, hf, hvalue, ← hlength]
      constructor
      · rintro ⟨⟩
        exact .arity hf (hresult.mp hvalue)
      · rintro (_ | hunknown | ⟨hf', -⟩)
        · exact absurd hunknown hknown
        · cases hf.symm.trans hf'
          rfl
    | some v =>
      simp only [call, hf, hvalue]
      apply failsAt_ok_single
      rintro ⟨_, (_ | hunknown | ⟨hf', hwrong⟩)⟩
      · exact hknown hunknown
      · cases hf.symm.trans hf'
        exact absurd (hvalue.symm.trans (hresult.mpr hwrong)) (Option.some_ne_none v)

mutual

lemma evaluate_failsAt (env : Environment) :
    (e : Expression) → FailsAt (evaluate env e) e.postorder
  | .number x => by
    rw [evaluate, postorder]
    · exact failsAt_ok_single nofun
    all_goals simp
  | .text s => by
    rw [evaluate, postorder]
    · exact failsAt_ok_single nofun
    all_goals simp
  | .name s => by
    rw [evaluate, postorder]
    · exact failsAt_name env s
    all_goals simp
  | .not e => by
    rw [evaluate, postorder]
    apply (evaluate_failsAt env e).andThen
    · intro err h
      rw [h]
    · intro v h
      rw [h]
      exact failsAt_ok_single nofun
  | .binary op lhs rhs => by
    rw [evaluate, postorder]
    apply (evaluate_failsAt env lhs).andThen
    · intro err h
      rw [h]
    · intro l hl
      rw [hl]
      apply (evaluate_failsAt env rhs).andThen
      · intro err h
        rw [h]
      · intro r hr
        rw [hr]
        exact failsAt_ok_single nofun
  | .call f args => by
    rw [evaluate, postorder]
    apply (evaluateAll_failsAt env args).andThen
    · intro err h
      rw [h]
    · intro vs h
      rw [h]
      exact failsAt_call f (forall₂_of_evaluateAll h).length_eq

lemma evaluateAll_failsAt (env : Environment) :
    (es : List Expression) → FailsAt (evaluateAll env es) (postorderOfAll es)
  | [] => by
    rw [evaluateAll, postorderOfAll]
    exact failsAt_ok.mpr (by simp)
  | e :: rest => by
    rw [evaluateAll, postorderOfAll]
    apply (evaluate_failsAt env e).andThen
    · intro err h
      rw [h]
    · intro v hv
      rw [hv, ← List.append_nil (postorderOfAll rest)]
      apply (evaluateAll_failsAt env rest).andThen
      · intro err h
        rw [h]
      · intro vs hvs
        rw [hvs]
        exact failsAt_ok.mpr (by simp)

end

lemma exists_error_iff (env : Environment) (e : Expression) :
    (∃ err, evaluate env e = .error err) ↔ ∃ part ∈ e.postorder, part.IsFaulty := by
  simp only [evaluate_failsAt env e _, exists_firstFault_iff]

/-- The operand that decides the value on its own does not keep the fault in the other one away. -/
example (env : Environment) : evaluate env (.binary .or (.name "true") (.name "vars.Y")) =
    .error (.unsupported "vars.Y") := rfl

lemma of_eq_unknown_iff (condition : String) (env : Environment) :
    Satisfiability.of condition env = .unknown ↔ Text.isBlankText condition = false ∧
      ∀ e, parse? condition = some e → ∃ part ∈ e.postorder, part.IsFaulty := by
  rw [Satisfiability.of]
  cases Text.isBlankText condition with
  | true => simp
  | false =>
    cases parse? condition with
    | none => simp
    | some e =>
      have herror := exists_error_iff env e
      cases hresult : evaluate env e with
      | error err => simpa [hresult] using herror
      | ok v => simpa [hresult] using herror

lemma isReachable_eq_false_iff (condition : String) (env : Environment) :
    (Satisfiability.of condition env).isReachable = false ↔
      ∃ e v, parse? condition = some e ∧ (∀ part ∈ e.postorder, ¬ part.IsFaulty) ∧
        evaluate env e = .ok v ∧ v.truthy = false := by
  constructor
  · intro h
    have hanswer : Satisfiability.of condition env = .definite false := by
      simpa [Satisfiability.isReachable] using h
    rw [Satisfiability.of] at hanswer
    split at hanswer
    · cases hanswer
    split at hanswer
    · cases hanswer
    next e hparse =>
      split at hanswer
      · next v hvalue =>
        have hsound := failsAt_ok.mp (hvalue ▸ evaluate_failsAt env e)
        exact ⟨e, v, hparse, hsound, hvalue, by simpa using hanswer⟩
      · cases hanswer
  · rintro ⟨e, v, hparse, -, hvalue, htruth⟩
    rw [Satisfiability.of, isBlankText_of_parse? hparse, hparse]
    simp [hvalue, htruth, Satisfiability.isReachable]

/-- Whether evaluation fails is decided by the parts of the expression alone, and so is the error: it
is that of the first part that is at fault. A condition is unknown when it cannot be read or has such
a part, and out of reach only when it has a value that cannot be true. -/
theorem failures_decided_by_syntax :
    (∀ (e : Expression) (env : Environment),
      (∃ err, evaluate env e = .error err) ↔ ∃ part ∈ e.postorder, part.IsFaulty) ∧
    (∀ (e : Expression) (env : Environment) (err : EvalError),
      evaluate env e = .error err ↔ FirstFault e.postorder err) ∧
    (∀ (condition : String) (env : Environment),
      Satisfiability.of condition env = .unknown ↔ Text.isBlankText condition = false ∧
        ∀ e, parse? condition = some e → ∃ part ∈ e.postorder, part.IsFaulty) ∧
    ∀ (condition : String) (env : Environment),
      (Satisfiability.of condition env).isReachable = false ↔
        ∃ e v, parse? condition = some e ∧ (∀ part ∈ e.postorder, ¬ part.IsFaulty) ∧
          evaluate env e = .ok v ∧ v.truthy = false :=
  ⟨fun e env => exists_error_iff env e, fun e env err => evaluate_failsAt env e err,
    of_eq_unknown_iff, isReachable_eq_false_iff⟩

end Evaluation

end WorkflowAudit
