import Mathlib.Data.List.Nodup
import WorkflowAudit.Proofs.Evaluation.Attainment
import WorkflowAudit.Proofs.Evaluation.WorstCase

/-! Conditions without a negated group, in which every context occurs once. Such a condition is
reckoned to be within reach exactly when a choice of the outsider meets it: what is attained for each
part separately is spliced into one choice, since no two parts share a context. -/

namespace WorkflowAudit

namespace Expression

/-- Terms, tests of terms, and what `&&` and `||` join of these. -/
inductive IsCondition : Expression → Prop
  | term {t} : IsTerm t → IsCondition t
  | negated {t} : IsTerm t → IsCondition (.not t)
  | comparison {op l r} : op.isComparison = true → IsTerm l → IsTerm r →
      ¬ (l.isContext = true ∧ r.isContext = true) → IsCondition (.binary op l r)
  | contains {f a b} : Text.sameIgnoringCase "contains" f = true → IsTerm a → IsTerm b →
      IsCondition (.call f [a, b])
  | joined {op l r} : op.isComparison = false → IsCondition l → IsCondition r →
      IsCondition (.binary op l r)

def IsLinear (e : Expression) : Prop := (e.contexts.map Text.fold).Nodup

lemma IsCondition.isSupported {e : Expression} (h : e.IsCondition) : e.IsSupported := by
  induction h with
  | term ht => exact .term ht
  | negated ht => exact .not (.term ht)
  | comparison _ hl hr hn => exact .binary (.term hl) (.term hr) fun _ => hn
  | contains hf ha hb => exact .contains hf (.term ha) (.term hb)
  | joined hop _ _ ihl ihr =>
    refine .binary ihl ihr fun hcomp => ?_
    rw [hop] at hcomp
    cases hcomp

lemma IsTerm.consumesSettled {t : Expression} (h : t.IsTerm) (env : Environment) :
    Evaluation.ConsumesSettled env t := by
  cases h <;> exact trivial

lemma IsCondition.consumesSettled {e : Expression} (h : e.IsCondition) (env : Environment) :
    Evaluation.ConsumesSettled env e := by
  induction h with
  | term ht => exact ht.consumesSettled env
  | negated ht => exact .inl ht
  | @comparison op l r hop hl hr _ =>
    cases op with
    | equal => exact ⟨.inl hl, .inl hr⟩
    | notEqual => exact ⟨.inl hl, .inl hr⟩
    | _ => cases hop
  | contains _ _ hb =>
    intro item hitem
    obtain rfl := List.mem_singleton.mp hitem
    exact .inl hb
  | @joined op l r hop _ _ ihl ihr =>
    cases op with
    | and => exact ⟨ihl, ihr⟩
    | or => exact ⟨ihl, ihr⟩
    | _ => cases hop

end Expression

/-! ### Environments of a choice -/

namespace Environment

lemma exists_allows {env : Environment} (hb : env.IsWellBound) (name : String) :
    ∃ v, env.Allows Value.isDefinite name v := by
  obtain ⟨v, hv, _⟩ := Value.exists_admits (.inl (hb.isBinding name))
  exact ⟨v, allows_iff.mpr hv⟩

lemma Allows.mono {free free' : Value → Bool} (h : ∀ v, free v = true → free' v = true)
    {env : Environment} {name : String} {v : Value} (hv : env.Allows free name v) :
    env.Allows free' name v := by
  rw [allows_iff] at hv ⊢
  cases hbound : (env.lookup name).getD (.wildcard name) with
  | wildcard origin =>
    rw [hbound] at hv
    exact h v hv
  | _ =>
    rw [hbound] at hv
    exact hv

lemma Realizes.concrete {env chosen : Environment} {e : Expression}
    (h : env.Realizes Value.isDefinite chosen e) : env.Realizes Value.isConcrete chosen e := by
  intro name hn hg
  obtain ⟨v, hv, hallows⟩ := h name hn hg
  exact ⟨v, hv, hallows.mono Value.isConcrete_of_isDefinite⟩

def Picks (env : Environment) (pick : String → Value) (names : List String) : Prop :=
  ∀ name ∈ names, env.Allows Value.isDefinite name (pick name)

def Follows (chosen : Environment) (pick : String → Value) (names : List String) : Prop :=
  ∀ name ∈ names, chosen.lookup name = some (pick name)

lemma exists_picks {env : Environment} (hb : env.IsWellBound) (names : List String) :
    ∃ pick, env.Picks pick names := by
  choose pick hpick using exists_allows hb
  exact ⟨pick, fun name _ => hpick name⟩

lemma Picks.splice {env : Environment} {p q : String → Value} {ls rs : List String}
    (hp : env.Picks p ls) (hq : env.Picks q rs) (hd : ls.Disjoint rs) :
    ∃ pick, env.Picks pick (ls ++ rs) ∧
      ∀ chosen : Environment, chosen.Follows pick (ls ++ rs) →
        chosen.Follows p ls ∧ chosen.Follows q rs := by
  let pick := fun name => if name ∈ ls then p name else q name
  have hleft : ∀ name ∈ ls, pick name = p name := fun name hn => if_pos hn
  have hright : ∀ name ∈ rs, pick name = q name := fun name hn => if_neg fun hl => hd hl hn
  refine ⟨pick, fun name hn => ?_, fun chosen h => ⟨fun name hn => ?_, fun name hn => ?_⟩⟩
  · rcases List.mem_append.mp hn with hn | hn
    · rw [hleft name hn]
      exact hp name hn
    · rw [hright name hn]
      exact hq name hn
  · rw [← hleft name hn]
    exact h name (List.mem_append_left _ hn)
  · rw [← hright name hn]
    exact h name (List.mem_append_right _ hn)

end Environment

namespace Evaluation

variable {env : Environment}

/-- Some pick makes the expression true wherever it is followed. -/
def IsMet (env : Environment) (e : Expression) : Prop :=
  ∃ pick, env.Picks pick e.contexts ∧
    ∀ chosen : Environment, chosen.Follows pick e.contexts → Holds chosen e

/-! ### Terms -/

lemma isOperand_of_isTerm (hb : env.IsWellBound) {t : Expression} (ht : t.IsTerm) {a : Value}
    (ha : evaluate env t = .ok a) : a.IsOperand := by
  rcases literal_or_context ht with ⟨v, hscalar, _, hv⟩ | ⟨s, rfl, hs, _⟩
  · obtain rfl : v = a := Except.ok.inj ((hv env).symm.trans ha)
    exact Value.isOperand_of_isScalar hscalar
  · rw [evaluate_context hs] at ha
    cases ha
    exact .inl (hb.isBinding s)

lemma isScalar_of_isTerm {t : Expression} (ht : t.IsTerm) (hn : t.isContext = false) {a : Value}
    (ha : evaluate env t = .ok a) : a.isScalar = true := by
  rcases literal_or_context ht with ⟨v, hscalar, _, hv⟩ | ⟨s, rfl, hs, _⟩
  · obtain rfl : v = a := Except.ok.inj ((hv env).symm.trans ha)
    exact hscalar
  · rw [Expression.isContext, hs] at hn
    cases hn

lemma exists_picks_of_admits {t : Expression} (ht : t.IsTerm) {a v : Value}
    (ha : evaluate env t = .ok a) (hv : a.Admits Value.isDefinite v) :
    ∃ pick, env.Picks pick t.contexts ∧
      ∀ chosen : Environment, chosen.Follows pick t.contexts → evaluate chosen t = .ok v := by
  refine ⟨fun _ => v, ?_⟩
  rcases literal_or_context ht with ⟨w, hscalar, hcontexts, hw⟩ | ⟨s, rfl, hs, hcontexts⟩
  · obtain rfl : w = a := Except.ok.inj ((hw env).symm.trans ha)
    obtain rfl : v = w := (Value.admits_iff_of_isScalar hscalar).mp hv
    exact ⟨by simp [Environment.Picks, hcontexts], fun chosen _ => hw chosen⟩
  · rw [hcontexts]
    refine ⟨fun name hn => ?_, fun chosen h => ?_⟩
    · obtain rfl := List.mem_singleton.mp hn
      rw [evaluate_context hs] at ha
      cases ha
      exact Environment.allows_iff.mpr hv
    · rw [evaluate_context hs, h s (by simp), Option.getD_some]

lemma exists_picks_of_pair {l r : Expression} (hl : l.IsTerm) (hr : r.IsTerm)
    (hd : l.contexts.Disjoint r.contexts) {a b v w : Value} (ha : evaluate env l = .ok a)
    (hb : evaluate env r = .ok b) (hv : a.Admits Value.isDefinite v)
    (hw : b.Admits Value.isDefinite w) :
    ∃ pick, env.Picks pick (l.contexts ++ r.contexts) ∧
      ∀ chosen : Environment, chosen.Follows pick (l.contexts ++ r.contexts) →
        evaluate chosen l = .ok v ∧ evaluate chosen r = .ok w := by
  obtain ⟨p, hp, hleft⟩ := exists_picks_of_admits hl ha hv
  obtain ⟨q, hq, hright⟩ := exists_picks_of_admits hr hb hw
  obtain ⟨pick, hpick, hfollows⟩ := hp.splice hq hd
  refine ⟨pick, hpick, fun chosen h => ?_⟩
  obtain ⟨hl', hr'⟩ := hfollows chosen h
  exact ⟨hleft chosen hl', hright chosen hr'⟩

/-! ### Tests of terms -/

lemma isMet_term (hb : env.IsWellBound) {t : Expression} (ht : t.IsTerm) (h : Holds env t) :
    IsMet env t := by
  obtain ⟨a, ha, htrue⟩ := h
  obtain ⟨v, hv, hvtrue⟩ := Value.exists_truthy (isOperand_of_isTerm hb ht ha) htrue
  obtain ⟨pick, hpick, hfollows⟩ := exists_picks_of_admits ht ha hv
  exact ⟨pick, hpick, fun chosen hc => ⟨v, hfollows chosen hc, hvtrue⟩⟩

lemma isMet_negated (hb : env.IsWellBound) {t : Expression} (ht : t.IsTerm)
    (h : Holds env (.not t)) : IsMet env (.not t) := by
  obtain ⟨a, ha⟩ := evaluate_term ht env
  rw [holds_not ha] at h
  obtain ⟨v, hv, hvfalse⟩ := Value.exists_falsy (isOperand_of_isTerm hb ht ha) h
  obtain ⟨pick, hpick, hfollows⟩ := exists_picks_of_admits ht ha hv
  refine ⟨pick, by rwa [Expression.contexts], fun chosen hc => ?_⟩
  rw [Expression.contexts] at hc
  exact (holds_not (hfollows chosen hc)).mpr hvfalse

lemma isMet_comparison (hb : env.IsWellBound) {op : BinaryOp} (hop : op.isComparison = true)
    {l r : Expression} (hl : l.IsTerm) (hr : r.IsTerm)
    (hn : ¬ (l.isContext = true ∧ r.isContext = true)) (hd : l.contexts.Disjoint r.contexts)
    (h : Holds env (.binary op l r)) : IsMet env (.binary op l r) := by
  obtain ⟨a, ha⟩ := evaluate_term hl env
  obtain ⟨b, hb'⟩ := evaluate_term hr env
  rw [holds_bool (evaluate_binary ha hb'), operate_comparison hop hn] at h
  have hscalar : a.isScalar = true ∨ b.isScalar = true := by
    rw [not_and_or, Bool.not_eq_true, Bool.not_eq_true] at hn
    exact hn.imp (isScalar_of_isTerm hl · ha) (isScalar_of_isTerm hr · hb')
  obtain ⟨v, w, hv, hw, hmeets⟩ := Value.exists_meets op (isOperand_of_isTerm hb hl ha)
    (isOperand_of_isTerm hb hr hb') hscalar h
  obtain ⟨pick, hpick, hfollows⟩ := exists_picks_of_pair hl hr hd ha hb' hv hw
  refine ⟨pick, by rwa [Expression.contexts], fun chosen hc => ?_⟩
  rw [Expression.contexts] at hc
  obtain ⟨hl', hr'⟩ := hfollows chosen hc
  rw [holds_bool (evaluate_binary hl' hr'), operate_comparison hop hn, hmeets]

lemma isMet_contains (hb : env.IsWellBound) {f : String}
    (hf : Text.sameIgnoringCase "contains" f = true) {search item : Expression}
    (hs : search.IsTerm) (hi : item.IsTerm) (hd : search.contexts.Disjoint item.contexts)
    (h : Holds env (.call f [search, item])) : IsMet env (.call f [search, item]) := by
  obtain ⟨a, ha⟩ := evaluate_term hs env
  obtain ⟨b, hb'⟩ := evaluate_term hi env
  rw [holds_bool (evaluate_contains hf ha hb')] at h
  obtain ⟨v, w, hv, hw, hcontains⟩ := Value.exists_couldContain (isOperand_of_isTerm hb hs ha)
    (isOperand_of_isTerm hb hi hb') h
  obtain ⟨pick, hpick, hfollows⟩ := exists_picks_of_pair hs hi hd ha hb' hv hw
  have hcontexts : (Expression.call f [search, item]).contexts =
      search.contexts ++ item.contexts := by
    simp [Expression.contexts, Expression.contextsOfAll]
  refine ⟨pick, by rwa [hcontexts], fun chosen hc => ?_⟩
  rw [hcontexts] at hc
  obtain ⟨hs', hi'⟩ := hfollows chosen hc
  rw [holds_bool (evaluate_contains hf hs' hi'), hcontains]

/-! ### Joined conditions -/

lemma isMet_and {l r : Expression} (hl : l.IsSupported) (hr : r.IsSupported)
    (hd : l.contexts.Disjoint r.contexts) (hml : IsMet env l) (hmr : IsMet env r) :
    IsMet env (.binary .and l r) := by
  obtain ⟨p, hp, hleft⟩ := hml
  obtain ⟨q, hq, hright⟩ := hmr
  obtain ⟨pick, hpick, hfollows⟩ := hp.splice hq hd
  refine ⟨pick, by rwa [Expression.contexts], fun chosen hc => ?_⟩
  rw [Expression.contexts] at hc
  obtain ⟨hl', hr'⟩ := hfollows chosen hc
  obtain ⟨a, ha, _⟩ := evaluate_supported hl chosen
  obtain ⟨b, hb', _⟩ := evaluate_supported hr chosen
  exact (holds_and ha hb').mpr ⟨hleft chosen hl', hright chosen hr'⟩

lemma isMet_or (hb : env.IsWellBound) {l r : Expression} (hl : l.IsSupported)
    (hr : r.IsSupported) (hd : l.contexts.Disjoint r.contexts) (h : IsMet env l ∨ IsMet env r) :
    IsMet env (.binary .or l r) := by
  have hjoin : ∀ p q, env.Picks p l.contexts → env.Picks q r.contexts →
      (∀ chosen : Environment, chosen.Follows p l.contexts → chosen.Follows q r.contexts →
        Holds chosen l ∨ Holds chosen r) → IsMet env (.binary .or l r) := by
    intro p q hp hq hholds
    obtain ⟨pick, hpick, hfollows⟩ := hp.splice hq hd
    refine ⟨pick, by rwa [Expression.contexts], fun chosen hc => ?_⟩
    rw [Expression.contexts] at hc
    obtain ⟨hl', hr'⟩ := hfollows chosen hc
    obtain ⟨a, ha, _⟩ := evaluate_supported hl chosen
    obtain ⟨b, hb', _⟩ := evaluate_supported hr chosen
    exact (holds_or ha hb').mpr (hholds chosen hl' hr')
  -- The side that does not matter still needs a value for each of its contexts.
  rcases h with ⟨p, hp, hleft⟩ | ⟨q, hq, hright⟩
  · obtain ⟨q, hq⟩ := Environment.exists_picks hb r.contexts
    exact hjoin p q hp hq fun chosen hc _ => .inl (hleft chosen hc)
  · obtain ⟨p, hp⟩ := Environment.exists_picks hb l.contexts
    exact hjoin p q hp hq fun chosen _ hc => .inr (hright chosen hc)

lemma isMet_of_holds (hb : env.IsWellBound) {e : Expression} (he : e.IsCondition)
    (hn : e.contexts.Nodup) (h : Holds env e) : IsMet env e := by
  induction he with
  | term ht => exact isMet_term hb ht h
  | negated ht => exact isMet_negated hb ht h
  | comparison hop hl hr hcontexts =>
    rw [Expression.contexts] at hn
    exact isMet_comparison hb hop hl hr hcontexts (List.nodup_append'.mp hn).2.2 h
  | contains hf ha hb' =>
    simp only [Expression.contexts, Expression.contextsOfAll, List.append_nil] at hn
    exact isMet_contains hb hf ha hb' (List.nodup_append'.mp hn).2.2 h
  | @joined op l r hop hl hr ihl ihr =>
    rw [Expression.contexts] at hn
    obtain ⟨hnl, hnr, hd⟩ := List.nodup_append'.mp hn
    obtain ⟨a, ha, _⟩ := evaluate_supported hl.isSupported env
    obtain ⟨b, hb', _⟩ := evaluate_supported hr.isSupported env
    cases op with
    | and =>
      obtain ⟨hleft, hright⟩ := (holds_and ha hb').mp h
      exact isMet_and hl.isSupported hr.isSupported hd (ihl hnl hleft) (ihr hnr hright)
    | or =>
      exact isMet_or hb hl.isSupported hr.isSupported hd
        (((holds_or ha hb').mp h).imp (ihl hnl) (ihr hnr))
    | _ => cases hop

/-- On linear conditions the evaluation for an outsider is exact: a condition is within reach if and
only if a choice for the contexts in it makes it true. -/
theorem isReachable_iff_exists_choice (hb : env.IsWellBound) {s : String} {e : Expression}
    (hs : Expression.parse? s = some e) (he : e.IsCondition) (hl : e.IsLinear) :
    (Satisfiability.of s env).isReachable = true ↔
      ∃ chosen, env.Realizes Value.isDefinite chosen e ∧ Holds chosen e := by
  rw [isReachable_iff hs he.isSupported]
  constructor
  · intro h
    obtain ⟨pick, hpick, hholds⟩ := isMet_of_holds hb he (List.Nodup.of_map Text.fold hl) h
    have hfollows : (Environment.empty.bindAll e.contexts pick).Follows pick e.contexts :=
      fun name hn => Environment.lookup_bindAll hl hn pick Environment.empty
    exact ⟨_, fun name hn _ => ⟨pick name, hfollows name hn, hpick name hn⟩, hholds _ hfollows⟩
  · rintro ⟨chosen, hr, hc⟩
    exact holds_of_choice hb he.isSupported (he.consumesSettled env) hr.concrete hc

def openBranch : Expression :=
  .binary .and (.binary .equal (.name "github.head_ref") (.text "a"))
    (.not (.name "github.event.pull_request.merged"))

lemma isCondition_openBranch : openBranch.IsCondition :=
  .joined rfl (.comparison rfl (.context rfl) (.text "a") fun h => by cases h.2)
    (.negated (.context rfl))

lemma isLinear_openBranch : openBranch.IsLinear := by
  have hcontexts : openBranch.contexts.map Text.fold =
      ["github.head_ref", "github.event.pull_request.merged"] :=
    congrArg₂ List.cons (Text.fold_ofList _) (congrArg₂ List.cons (Text.fold_ofList _) rfl)
  rw [Expression.IsLinear, hcontexts]
  simp

theorem isReachable_openBranch :
    let s := "github.head_ref == 'a' && !github.event.pull_request.merged"
    Environment.attacker.IsWellBound ∧ Expression.parse? s = some openBranch ∧
      openBranch.IsCondition ∧ openBranch.IsLinear ∧
      ((Satisfiability.of s Environment.attacker).isReachable = true ↔
        ∃ chosen, Environment.attacker.Realizes Value.isDefinite chosen openBranch ∧
          Holds chosen openBranch) := by
  have hb := Environment.outsider_isWellBound Environment.login
  have hs : Expression.parse? "github.head_ref == 'a' && !github.event.pull_request.merged" =
      some openBranch := (Expression.parse?_ofList _).trans rfl
  exact ⟨hb, hs, isCondition_openBranch, isLinear_openBranch,
    isReachable_iff_exists_choice hb hs isCondition_openBranch isLinear_openBranch⟩

end Evaluation

end WorkflowAudit
