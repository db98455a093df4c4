import WorkflowAudit.Proofs.Evaluation.Coverage

/-! Conditions that a choice of the outsider meets. None is missed as long as no operator consumes a
truth value that hangs on the choice: a truth value is kept as what it could be at best, and a
negation or a comparison of it takes this for what it always is. -/

namespace WorkflowAudit.Evaluation

/-- Every choice that meets the condition is reckoned with. -/
def MissesNoChoice (env : Environment) (s : String) (e : Expression) : Prop :=
  ∀ chosen, env.Realizes Value.isConcrete chosen e → Holds chosen e →
    (Satisfiability.of s env).isReachable = true

/-- What could be true is true under every choice. -/
def StaysTrue (env : Environment) (e : Expression) : Prop :=
  Holds env e → ∀ chosen, env.Realizes Value.isConcrete chosen e → Holds chosen e

/-- No choice bears on the truth of the expression. -/
def IsSettled (env : Environment) (e : Expression) : Prop :=
  ∀ chosen, env.Realizes Value.isConcrete chosen e → (Holds chosen e ↔ Holds env e)

def IsFaithful (env : Environment) (e : Expression) : Prop := e.IsTerm ∨ IsSettled env e

/-- The parts of the expression that `&&` and `||` join consume terms and settled truth values. -/
def ConsumesSettled (env : Environment) : Expression → Prop
  | .not e => e.IsTerm ∨ StaysTrue env e
  | .binary .and l r | .binary .or l r => ConsumesSettled env l ∧ ConsumesSettled env r
  | .binary _ l r => IsFaithful env l ∧ IsFaithful env r
  | .call _ args => ∀ item ∈ args.drop 1, IsFaithful env item
  | _ => True

/-- Two ways to ask for a truth value: comparison with it, and search in its text. -/
inductive Asks (e : Expression) : (Bool → Expression) → Prop
  | equal : Asks e fun b => .binary .equal e (.name (Value.bool b).display)
  | contains : Asks e fun b => .call "contains" [.text (Value.bool b).display, e]

variable {env chosen : Environment} {e : Expression}

lemma evaluate_compound (he : e.IsSupported) (ht : ¬ e.IsTerm) (env : Environment) :
    ∃ b, evaluate env e = .ok (.bool b) := by
  obtain ⟨v, hv, hterm | ⟨b, rfl⟩⟩ := evaluate_supported he env
  · exact absurd hterm ht
  · exact ⟨b, hv⟩

lemma holds_bool {b : Bool} (h : evaluate env e = .ok (.bool b)) : Holds env e ↔ b = true := by
  rw [holds_iff h, truthy_bool]

lemma holds_not_compound (he : e.IsSupported) (ht : ¬ e.IsTerm) (env : Environment) :
    Holds env (.not e) ↔ ¬ Holds env e := by
  obtain ⟨b, hb⟩ := evaluate_compound he ht env
  rw [holds_not hb, holds_bool hb]
  cases b <;> simp [Value.falsy, Value.outcomes, Value.holds, Value.isWildcard]

lemma IsFaithful.covers (hb : env.IsWellBound) (he : e.IsSupported) (h : IsFaithful env e)
    (hr : env.Realizes Value.isConcrete chosen e) :
    ∃ a c, evaluate env e = .ok a ∧ evaluate chosen e = .ok c ∧ a.Covers c := by
  by_cases ht : e.IsTerm
  · exact covers_of_realizes hb ht hr
  · obtain ⟨p, hp⟩ := evaluate_compound he ht env
    obtain ⟨q, hq⟩ := evaluate_compound he ht chosen
    have hsettled := h.resolve_left ht chosen hr
    rw [holds_bool hp, holds_bool hq, ← Bool.eq_iff_iff] at hsettled
    subst hsettled
    exact ⟨_, _, hp, hq, Value.Covers.refl rfl⟩

lemma holds_not_of_choice (hb : env.IsWellBound) (he : e.IsSupported)
    (h : e.IsTerm ∨ StaysTrue env e) (hr : env.Realizes Value.isConcrete chosen e)
    (hc : Holds chosen (.not e)) : Holds env (.not e) := by
  by_cases ht : e.IsTerm
  · obtain ⟨a, c, ha, hc', hcover⟩ := covers_of_realizes hb ht hr
    rw [holds_not hc'] at hc
    exact (holds_not ha).mpr (Value.falsy_of_covers hcover hc)
  · rw [holds_not_compound he ht] at hc ⊢
    exact fun henv => hc (h.resolve_left ht henv chosen hr)

lemma holds_comparison_of_choice (hb : env.IsWellBound) {op : BinaryOp}
    (hop : op.isComparison = true) {l r : Expression} (hl : l.IsSupported) (hr : r.IsSupported)
    (hn : ¬ (l.isContext = true ∧ r.isContext = true)) (hfl : IsFaithful env l)
    (hfr : IsFaithful env r) (hreal : env.Realizes Value.isConcrete chosen (.binary op l r))
    (hc : Holds chosen (.binary op l r)) : Holds env (.binary op l r) := by
  obtain ⟨a, c, ha, hc', hac⟩ := hfl.covers hb hl hreal.left
  obtain ⟨b, d, hb', hd, hbd⟩ := hfr.covers hb hr hreal.right
  rw [holds_bool (evaluate_binary hc' hd), operate_comparison hop hn] at hc
  rw [holds_bool (evaluate_binary ha hb'), operate_comparison hop hn]
  exact Value.meets_of_covers hac hbd hc

lemma couldContain_bool (p : Bool) (item : Value) : (Value.bool p).couldContain item = false := by
  simp [Value.couldContain, Value.outcomes, Value.outcomeContains]

lemma holds_contains_of_choice (hb : env.IsWellBound) {f : String}
    (hf : Text.sameIgnoringCase "contains" f = true) {search item : Expression}
    (hs : search.IsSupported) (hi : item.IsSupported) (hfi : IsFaithful env item)
    (hreal : env.Realizes Value.isConcrete chosen (.call f [search, item]))
    (hc : Holds chosen (.call f [search, item])) : Holds env (.call f [search, item]) := by
  obtain ⟨b, d, hb', hd, hbd⟩ := hfi.covers hb hi (hreal.argument (by simp))
  by_cases ht : search.IsTerm
  · obtain ⟨a, c, ha, hc', hac⟩ := covers_of_realizes hb ht (hreal.argument (by simp))
    rw [holds_bool (evaluate_contains hf hc' hd)] at hc
    rw [holds_bool (evaluate_contains hf ha hb')]
    exact Value.couldContain_of_covers hac hbd hc
  · obtain ⟨q, hq⟩ := evaluate_compound hs ht chosen
    rw [holds_bool (evaluate_contains hf hq hd), couldContain_bool] at hc
    cases hc

lemma holds_of_choice (hb : env.IsWellBound) (he : e.IsSupported) (h : ConsumesSettled env e)
    (hr : env.Realizes Value.isConcrete chosen e) (hc : Holds chosen e) : Holds env e := by
  -- Only the joined parts need the induction: the other operators ask for more than it gives.
  induction he with
  | term ht =>
    obtain ⟨a, c, ha, hc', hcover⟩ := covers_of_realizes hb ht hr
    rw [holds_iff hc'] at hc
    exact (holds_iff ha).mpr (Value.truthy_of_covers hcover hc)
  | not he _ => exact holds_not_of_choice hb he h hr.negated hc
  | @binary op l r hl hr' hn ihl ihr =>
    obtain ⟨a, ha, _⟩ := evaluate_supported hl env
    obtain ⟨b, hb', _⟩ := evaluate_supported hr' env
    obtain ⟨c, hc', _⟩ := evaluate_supported hl chosen
    obtain ⟨d, hd, _⟩ := evaluate_supported hr' chosen
    cases op with
    | and =>
      obtain ⟨hcl, hcr⟩ := (holds_and hc' hd).mp hc
      exact (holds_and ha hb').mpr ⟨ihl h.1 hr.left hcl, ihr h.2 hr.right hcr⟩
    | or =>
      refine (holds_or ha hb').mpr ?_
      rcases (holds_or hc' hd).mp hc with hcl | hcr
      · exact .inl (ihl h.1 hr.left hcl)
      · exact .inr (ihr h.2 hr.right hcr)
    | equal => exact holds_comparison_of_choice hb rfl hl hr' (hn rfl) h.1 h.2 hr hc
    | notEqual => exact holds_comparison_of_choice hb rfl hl hr' (hn rfl) h.1 h.2 hr hc
  | contains hf hs hi _ _ =>
    exact holds_contains_of_choice hb hf hs hi (h _ (by simp)) hr hc

lemma missesNoChoice_iff (he : e.IsSupported) {s : String} (hs : Expression.parse? s = some e) :
    MissesNoChoice env s e ↔
      ∀ chosen, env.Realizes Value.isConcrete chosen e → Holds chosen e → Holds env e := by
  rw [MissesNoChoice, isReachable_iff hs he]

lemma staysTrue_of_missesNoChoice (he : e.IsSupported) (ht : ¬ e.IsTerm) {s : String}
    (hs : Expression.parse? s = some (.not e)) (h : MissesNoChoice env s (.not e)) :
    StaysTrue env e := by
  intro henv chosen hr
  by_contra hc
  have hreal : env.Realizes Value.isConcrete chosen (.not e) :=
    hr.mono fun _ hn => by rwa [Expression.contexts] at hn
  have hnot := (missesNoChoice_iff (.not he) hs).mp h chosen hreal
    ((holds_not_compound he ht chosen).mpr hc)
  exact (holds_not_compound he ht env).mp hnot henv

/-! ### Asking for a truth value -/

lemma isBoolean_display (b : Bool) : Expression.isBoolean (Value.bool b).display = true := by
  cases b <;> rfl

lemma not_isContext_display (b : Bool) :
    (Expression.name (Value.bool b).display).isContext = false := by
  rw [Expression.isContext, Bool.eq_false_iff]
  intro hg
  have hboolean := isBoolean_display b
  rw [Expression.isBoolean_of_isGithub hg] at hboolean
  cases hboolean

namespace Asks

variable {test : Bool → Expression}

lemma isSupported (h : Asks e test) (he : e.IsSupported) (b : Bool) : (test b).IsSupported := by
  cases h with
  | equal =>
    refine .binary he (.term (.boolean (isBoolean_display b))) fun _ hn => ?_
    rw [not_isContext_display] at hn
    cases hn.2
  | contains => exact .contains rfl (.term (.text _)) he

lemma realizes (h : Asks e test) (hr : env.Realizes Value.isConcrete chosen e) (b : Bool) :
    env.Realizes Value.isConcrete chosen (test b) := by
  refine hr.mono fun name hn => ?_
  cases h with
  | equal => simpa [Expression.contexts, isBoolean_display] using hn
  | contains => simpa [Expression.contexts, Expression.contextsOfAll] using hn

lemma consumesSettled (h : Asks e test) (he : IsFaithful env e) (b : Bool) :
    ConsumesSettled env (test b) := by
  cases h with
  | equal => exact ⟨he, .inl (.boolean (isBoolean_display b))⟩
  | contains =>
    intro item hitem
    obtain rfl := List.mem_singleton.mp hitem
    exact he

lemma holds_iff (h : Asks e test) (he : e.IsSupported) (ht : ¬ e.IsTerm) (env : Environment)
    (b : Bool) : Holds env (test b) ↔ (Holds env e ↔ b = true) := by
  obtain ⟨p, hp⟩ := evaluate_compound he ht env
  rw [holds_bool hp]
  cases h with
  | equal =>
    have hb : evaluate env (.name (Value.bool b).display) = .ok (.bool b) := by
      cases b <;> rfl
    have hn : ¬ (e.isContext = true ∧
        (Expression.name (Value.bool b).display).isContext = true) := by
      simp [not_isContext_display]
    rw [holds_bool (evaluate_binary hp hb), operate_comparison rfl hn,
      Value.meets_of_isConcrete _ rfl rfl]
    cases p <;> cases b <;> simp [BinaryOp.relates, Value.agrees]
  | contains =>
    have hsearch : (Value.text (Value.bool b).display).couldContain (.bool p) = (p == b) := by
      cases p <;> cases b <;> rfl
    rw [holds_bool (evaluate_contains rfl rfl hp), hsearch]
    cases p <;> cases b <;> simp

end Asks

lemma isSettled_of_missesNoChoice {test : Bool → Expression} (hask : Asks e test)
    (he : e.IsSupported) (ht : ¬ e.IsTerm) {text : Bool → String}
    (hparse : ∀ b, Expression.parse? (text b) = some (test b))
    (h : ∀ b, MissesNoChoice env (text b) (test b)) : IsSettled env e := by
  intro chosen hr
  have hkept : ∀ b, Holds chosen (test b) → Holds env (test b) := fun b =>
    (missesNoChoice_iff (hask.isSupported he b) (hparse b)).mp (h b) chosen (hask.realizes hr b)
  have hup := hkept true
  have hdown := hkept false
  rw [hask.holds_iff he ht, hask.holds_iff he ht] at hup hdown
  simp only [iff_true, Bool.false_eq_true, iff_false] at hup hdown
  exact ⟨hup, fun henv => by_contra fun hc => hdown hc henv⟩

/-- No choice is missed where only settled truth values are consumed. A negation misses none exactly
when its operand is a term or stays true, and to ask for both truth values misses none exactly when
the operand is a term or settled. -/
theorem worst_case_exact (hb : env.IsWellBound) (he : e.IsSupported) :
    (∀ s, Expression.parse? s = some e → ConsumesSettled env e → MissesNoChoice env s e) ∧
      (∀ s, Expression.parse? s = some (.not e) →
        (MissesNoChoice env s (.not e) ↔ e.IsTerm ∨ StaysTrue env e)) ∧
      ∀ test, Asks e test → ∀ text : Bool → String,
        (∀ b, Expression.parse? (text b) = some (test b)) →
        ((∀ b, MissesNoChoice env (text b) (test b)) ↔ IsFaithful env e) := by
  have hsound : ∀ e : Expression, e.IsSupported → ∀ s, Expression.parse? s = some e →
      ConsumesSettled env e → MissesNoChoice env s e := fun e he s hs hc =>
    (missesNoChoice_iff he hs).mpr fun _ hr => holds_of_choice hb he hc hr
  refine ⟨hsound e he, fun s hs => ⟨fun h => ?_, hsound _ (.not he) s hs⟩,
    fun test hask text hparse => ⟨fun h => ?_, fun hf b => ?_⟩⟩
  · by_cases ht : e.IsTerm
    · exact .inl ht
    · exact .inr (staysTrue_of_missesNoChoice he ht hs h)
  · by_cases ht : e.IsTerm
    · exact .inl ht
    · exact .inr (isSettled_of_missesNoChoice hask he ht hparse h)
  · exact hsound _ (hask.isSupported he b) _ (hparse b) (hask.consumesSettled hf b)

def branchIsA : Expression := .binary .equal (.name "github.head_ref") (.text "a")

lemma isSupported_branchIsA : branchIsA.IsSupported :=
  .binary (.term (.context rfl)) (.term (.text "a")) fun _ h => by cases h.2

lemma evaluate_branchIsA {v : Value} (h : env.lookup "github.head_ref" = some v) :
    evaluate env branchIsA = .ok (.bool (v.couldEqual (.text "a"))) := by
  have hname : evaluate env (.name "github.head_ref") = .ok v := by
    rw [evaluate_context rfl, h, Option.getD_some]
  rw [branchIsA, evaluate_binary hname rfl]
  rfl

lemma parse?_not_branchIsA :
    Expression.parse? "!(github.head_ref == 'a')" = some (.not branchIsA) :=
  (Expression.parse?_ofList _).trans rfl

theorem worst_case_branch :
    Environment.attacker.IsWellBound ∧ branchIsA.IsSupported ∧
      MissesNoChoice Environment.attacker "github.head_ref == 'a'" branchIsA ∧
      (MissesNoChoice Environment.attacker "!(github.head_ref == 'a')" (.not branchIsA) ↔
        branchIsA.IsTerm ∨ StaysTrue Environment.attacker branchIsA) := by
  have hb := Environment.outsider_isWellBound Environment.login
  obtain ⟨hsound, hnot, _⟩ := worst_case_exact hb isSupported_branchIsA
  have hparse : Expression.parse? "github.head_ref == 'a'" = some branchIsA :=
    (Expression.parse?_ofList _).trans rfl
  exact ⟨hb, isSupported_branchIsA, hsound _ hparse ⟨.inl (.context rfl), .inl (.text "a")⟩,
    hnot _ parse?_not_branchIsA⟩

/-- With a branch of another name the negation is met, and yet reckoned to be out of reach. -/
theorem negated_comparison_missed :
    Environment.attacker.IsWellBound ∧ (Expression.not branchIsA).IsSupported ∧
      Expression.parse? "!(github.head_ref == 'a')" = some (.not branchIsA) ∧
      ¬ MissesNoChoice Environment.attacker "!(github.head_ref == 'a')" (.not branchIsA) := by
  refine ⟨Environment.outsider_isWellBound _, .not isSupported_branchIsA, parse?_not_branchIsA,
    fun h => ?_⟩
  have hfree : Environment.attacker.lookup "github.head_ref" = some (.wildcard "github.head_ref") :=
    Environment.outsider_lookup_freeform _ (by simp [Environment.freeformContexts])
  let chosen := Environment.empty.bind "github.head_ref" (.text "b")
  have hchosen : chosen.lookup "github.head_ref" = some (.text "b") := by
    rw [Environment.lookup_bind, if_pos rfl]
  have hreal : Environment.attacker.Realizes Value.isConcrete chosen (.not branchIsA) := by
    intro name hn _
    obtain rfl : name = "github.head_ref" := List.mem_singleton.mp hn
    exact ⟨.text "b", hchosen, by rw [Environment.Allows, hfree]; rfl⟩
  have hmet : Holds chosen (.not branchIsA) := (holds_not (evaluate_branchIsA hchosen)).mpr rfl
  have hreach := (isReachable_iff parse?_not_branchIsA (.not isSupported_branchIsA) _).mp
    (h chosen hreal hmet)
  rw [holds_not (evaluate_branchIsA hfree)] at hreach
  cases hreach

end WorkflowAudit.Evaluation
