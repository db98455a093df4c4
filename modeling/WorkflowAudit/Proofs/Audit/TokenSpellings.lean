import WorkflowAudit.Proofs.Audit.EnvironmentChanges
import WorkflowAudit.Proofs.Context.Patterns
import WorkflowAudit.Proofs.Text.Parts

/-! Names of contexts that differ in the case of letters. A name is static in whatever letters it is
written, but what a scope knows of it is asked as it is written: a root of the outsider's is one for
the lower case of the prefixes alone, and the tables know their names letter by letter. -/

namespace WorkflowAudit

lemma forall₂_combine {α β : Type} {p q r : α → β → Prop} (h : ∀ a b, p a b → q a b → r a b)
    {as : List α} {bs : List β} (hp : List.Forall₂ p as bs) (hq : List.Forall₂ q as bs) :
    List.Forall₂ r as bs := by
  rw [List.forall₂_iff_zip] at hp hq ⊢
  exact ⟨hp.1, fun hab => h _ _ (hp.2 hab) (hq.2 hab)⟩

/-! ### Mentioned contexts -/

namespace Expression

mutual

lemma forall₂_contexts : (e e' : Expression) → e.same e' = true →
    List.Forall₂ (fun a b => Text.sameIgnoringCase a b = true) e.contexts e'.contexts
  | .number _, e', h | .text _, e', h => by
    cases e' with
    | number _ | text _ => exact .nil
    | _ => simp [same] at h
  | .name a, e', h => by
    cases e' with
    | name b =>
      rw [same] at h
      have hboolean : isBoolean a = isBoolean b := by
        rw [isBoolean, isBoolean, Text.sameIgnoringCase_congr_left h,
          Text.sameIgnoringCase_congr_left h]
      rw [contexts, contexts, hboolean]
      split
      · exact .nil
      · exact .cons h .nil
    | _ => simp [same] at h
  | .call f args, e', h => by
    cases e' with
    | call g args' =>
      rw [same, Bool.and_eq_true] at h
      rw [contexts, contexts]
      exact forall₂_contextsOfAll args args' h.2
    | _ => simp [same] at h
  | .not a, e', h => by
    cases e' with
    | not b =>
      rw [contexts, contexts]
      exact forall₂_contexts a b (by rwa [same] at h)
    | _ => simp [same] at h
  | .binary op l r, e', h => by
    cases e' with
    | binary op' l' r' =>
      rw [same, Bool.and_eq_true, Bool.and_eq_true] at h
      rw [contexts, contexts]
      exact List.rel_append (forall₂_contexts l l' h.1.2) (forall₂_contexts r r' h.2)
    | _ => simp [same] at h

lemma forall₂_contextsOfAll : (es es' : List Expression) → sameAll es es' = true →
    List.Forall₂ (fun a b => Text.sameIgnoringCase a b = true) (contextsOfAll es)
      (contextsOfAll es')
  | [], es', h => by
    cases es' with
    | nil => exact .nil
    | cons _ _ => simp [sameAll] at h
  | e :: es, es', h => by
    cases es' with
    | nil => simp [sameAll] at h
    | cons e' es' =>
      rw [sameAll, Bool.and_eq_true] at h
      rw [contextsOfAll, contextsOfAll]
      exact List.rel_append (forall₂_contexts e e' h.1) (forall₂_contextsOfAll es es' h.2)

end

end Expression

/-! ### What a scope knows of two spellings -/

/-- One context of the outsider's, reached in one way, in whatever letters it is written. -/
def Implicated.Alike (i j : Implicated) : Prop :=
  i.origin = j.origin ∧ Text.sameIgnoringCase i.token j.token = true

/-- The token whose slot it is. -/
def Slot.token : Slot → String
  | .env name | .stepEnv name => "env." ++ name
  | .input name => "inputs." ++ name
  | .output token => token

namespace Scope

variable {s : Scope} {a b front front' : String} {x : Slot}

def heldPrefixes : List String := ["env.", "inputs.", "needs."]

def hiddenPrefixes : List String := ["steps.", "jobs."]

/-- What the tables hold for a token. -/
def held (s : Scope) (token : String) : Taint := (s.ask (slotsOf token)).getD []

/-- In this state two spellings of a context stand for the same. -/
def ReadsAlike (s : Scope) (a b : String) : Prop :=
  isRoot a = isRoot b ∧
    List.Forall₂ (fun t u => Text.sameIgnoringCase t u = true) (s.held a) (s.held b)

/-- Two spellings of a context of which no state can tell anything different: it is static, or is
spelled in one way, or is a root in both spellings, or is hidden in both. -/
def IsCaseFree (a b : String) : Prop :=
  Classification.isStatic a = true ∨ a = b ∨ isRoot a = true ∧ isRoot b = true ∨
    ∃ front ∈ hiddenPrefixes, Text.startsWith front a = true ∧ Text.startsWith front b = true

lemma token_of_mem_slotsOf (h : x ∈ slotsOf a) : x.token = a := by
  rw [slotsOf] at h
  split at h
  · cases h
  split at h
  · next name hname =>
    rw [Text.dropFront_eq_some_iff.mp hname]
    simp only [List.mem_cons, List.not_mem_nil, or_false] at h
    obtain rfl | rfl := h <;> rfl
  split at h
  · next name hname =>
    rw [Text.dropFront_eq_some_iff.mp hname, List.mem_singleton.mp h]
    rfl
  split at h
  · rw [List.mem_singleton.mp h]
    rfl
  · cases h

/-- Two opaque prefixes do not begin with one letter, in whatever case. -/
lemma front_unique (hfront : front ∈ opaquePrefixes) (hfront' : front' ∈ opaquePrefixes)
    (ha : Text.startsWith front a = true) (hb : Text.startsWith front' b = true)
    (h : Text.sameIgnoringCase a b = true) : front = front' := by
  have hletters : ∀ p ∈ opaquePrefixes, ∀ q ∈ opaquePrefixes,
      p.toList.head?.map Char.toLower = q.toList.head?.map Char.toLower → p = q := by
    decide +kernel
  have hnonempty : ∀ p ∈ opaquePrefixes, p.toList ≠ [] := by decide +kernel
  have hhead {p s : String} (hp : p ∈ opaquePrefixes) (hs : Text.startsWith p s = true) :
      (s.toList.map Char.toLower).head? = p.toList.head?.map Char.toLower := by
    obtain ⟨r, hr⟩ := Text.startsWith_iff.mp hs
    rw [← hr, List.head?_map, List.head?_append_of_ne_nil _ (hnonempty p hp)]
  apply hletters front hfront front' hfront'
  rw [← hhead hfront ha, ← hhead hfront' hb, Text.sameIgnoringCase_iff.mp h]

lemma mem_opaquePrefixes_iff :
    front ∈ opaquePrefixes ↔ front ∈ heldPrefixes ∨ front ∈ hiddenPrefixes := by
  rw [← List.mem_append]
  rfl

/-- The prefix of a token that has slots decides how it reaches the outsider. -/
lemma exists_front_of_slots (h : slotsOf a ≠ []) :
    ∃ front ∈ heldPrefixes, Text.startsWith front a = true ∧ originOf a = originOf front := by
  rw [slotsOf] at h
  split at h
  · exact absurd rfl h
  split at h
  · next name hname =>
    have hstarts := startsWith_of_dropFront hname
    exact ⟨"env.", by simp [heldPrefixes], hstarts, if_pos hstarts⟩
  next henv =>
  have henv := startsWith_of_dropFront_eq_none henv
  split at h
  · next name hname =>
    have hstarts := startsWith_of_dropFront hname
    refine ⟨"inputs.", by simp [heldPrefixes], hstarts, ?_⟩
    rw [originOf, henv, if_neg Bool.false_ne_true, if_pos hstarts]
    rfl
  next hinputs =>
  have hinputs := startsWith_of_dropFront_eq_none hinputs
  split at h
  · next hneeds =>
    refine ⟨"needs.", by simp [heldPrefixes], hneeds, ?_⟩
    rw [originOf, henv, if_neg Bool.false_ne_true, hinputs, if_neg Bool.false_ne_true]
    rfl
  · exact absurd rfl h

lemma slots_ne_nil_of_front (hstatic : Classification.isStatic a = false)
    (hfront : front ∈ heldPrefixes) (h : Text.startsWith front a = true) : slotsOf a ≠ [] := by
  rw [slotsOf, hstatic, if_neg Bool.false_ne_true]
  cases henv : Text.dropFront "env." a with
  | some name => exact List.cons_ne_nil _ _
  | none =>
    cases hinputs : Text.dropFront "inputs." a with
    | some name => exact List.cons_ne_nil _ _
    | none =>
      have henv := startsWith_of_dropFront_eq_none henv
      have hinputs := startsWith_of_dropFront_eq_none hinputs
      simp only [heldPrefixes, List.mem_cons, List.not_mem_nil, or_false] at hfront
      obtain rfl | rfl | rfl := hfront
      · exact absurd (henv.symm.trans h) Bool.false_ne_true
      · exact absurd (hinputs.symm.trans h) Bool.false_ne_true
      · rw [if_pos h]
        exact List.cons_ne_nil _ _

lemma slotsOf_of_hidden (hfront : front ∈ hiddenPrefixes) (h : Text.startsWith front a = true) :
    slotsOf a = [] := by
  by_contra hslots
  obtain ⟨p, hp, hpa, _⟩ := exists_front_of_slots hslots
  obtain rfl := front_unique (mem_opaquePrefixes_iff.mpr (.inl hp))
    (mem_opaquePrefixes_iff.mpr (.inr hfront)) hpa h (Text.sameIgnoringCase_self a)
  have hapart : ∀ q ∈ heldPrefixes, q ∉ hiddenPrefixes := by decide +kernel
  exact hapart p hp hfront

lemma exists_hidden_front (hstatic : Classification.isStatic a = false)
    (hroot : isRoot a = false) (hslots : slotsOf a = []) :
    ∃ front ∈ hiddenPrefixes, Text.startsWith front a = true := by
  rw [isRoot, hstatic, Bool.not_false, Bool.true_and, Bool.not_eq_false', List.any_eq_true] at hroot
  obtain ⟨front, hfront, hstarts⟩ := hroot
  refine ⟨front, ?_, hstarts⟩
  exact (mem_opaquePrefixes_iff.mp hfront).resolve_left fun hheld =>
    slots_ne_nil_of_front hstatic hheld hstarts hslots

lemma slots_ne_nil_of_held (h : s.held a ≠ []) : slotsOf a ≠ [] := by
  intro hslots
  rw [held, hslots, ask_nil] at h
  exact h rfl

lemma originOf_eq_of_held (h : Text.sameIgnoringCase a b = true) (ha : s.held a ≠ [])
    (hb : s.held b ≠ []) : originOf a = originOf b := by
  obtain ⟨p, hp, hpa, hoa⟩ := exists_front_of_slots (slots_ne_nil_of_held ha)
  obtain ⟨q, hq, hqb, hob⟩ := exists_front_of_slots (slots_ne_nil_of_held hb)
  rw [hoa, hob, front_unique (mem_opaquePrefixes_iff.mpr (.inl hp))
    (mem_opaquePrefixes_iff.mpr (.inl hq)) hpa hqb h]

lemma originOf_ne_direct (token : String) : originOf token ≠ .direct := by
  rw [originOf]
  split
  · exact Origin.noConfusion
  · split <;> exact Origin.noConfusion

lemma resolveToken_of_not_isRoot (h : isRoot a = false) :
    s.resolveToken a = (s.held a).map fun t => ⟨t, originOf a, some a⟩ := by
  rw [resolveToken, resolve_eq, h, if_neg Bool.false_ne_true, held]
  cases s.ask (slotsOf a) with
  | none => rfl
  | some t =>
    cases t with
    | nil => rfl
    | cons t ts => simp [carried, originOf_ne_direct]

lemma direct_mem_origins_iff : .direct ∈ (s.resolveToken a).map (·.origin) ↔ isRoot a = true := by
  cases h : isRoot a with
  | true => simp [resolveToken_of_isRoot s h]
  | false => simp [resolveToken_of_not_isRoot h, originOf_ne_direct]

lemma isRoot_eq_of_alike (h : List.Forall₂ Implicated.Alike (s.resolveToken a) (s.resolveToken b)) :
    isRoot a = isRoot b := by
  have horigins : (s.resolveToken a).map (·.origin) = (s.resolveToken b).map (·.origin) := by
    rw [← List.forall₂_eq_eq_eq, List.forall₂_map_left_iff, List.forall₂_map_right_iff]
    exact h.imp fun _ _ halike => halike.1
  rw [Bool.eq_iff_iff, ← direct_mem_origins_iff (s := s), horigins, direct_mem_origins_iff]

lemma held_of_isRoot (h : isRoot a = true) : s.held a = [] := by
  rw [held, slotsOf_of_isRoot h]
  rfl

/-- Two spellings of a context are resolved alike where they stand for the same, and nowhere else. -/
lemma resolveToken_alike_iff (h : Text.sameIgnoringCase a b = true) :
    List.Forall₂ Implicated.Alike (s.resolveToken a) (s.resolveToken b) ↔ s.ReadsAlike a b := by
  by_cases hroots : isRoot a = isRoot b
  swap
  · exact iff_of_false (mt isRoot_eq_of_alike hroots) fun hreads => hroots hreads.1
  rw [ReadsAlike, and_iff_right hroots]
  cases hb : isRoot b with
  | true =>
    have ha := hroots.trans hb
    rw [resolveToken_of_isRoot s ha, resolveToken_of_isRoot s hb, held_of_isRoot ha, held_of_isRoot hb]
    exact iff_of_true (.cons ⟨rfl, h⟩ .nil) .nil
  | false =>
    rw [resolveToken_of_not_isRoot (hroots.trans hb), resolveToken_of_not_isRoot hb,
      List.forall₂_map_left_iff, List.forall₂_map_right_iff]
    constructor
    · exact List.Forall₂.imp fun _ _ halike => halike.2
    · intro hheld
      have horigin : s.held a ≠ [] → originOf a = originOf b := fun hne =>
        originOf_eq_of_held h hne fun hnil => hne (by simpa [hnil] using hheld)
      generalize s.held a = ts, s.held b = us at hheld horigin
      cases hheld with
      | nil => exact .nil
      | cons ht hts =>
        have horigin := horigin (List.cons_ne_nil _ _)
        exact .cons ⟨horigin, ht⟩ (hts.imp fun _ _ hu => ⟨horigin, hu⟩)

lemma resolveTokens_alike {as bs : List String}
    (h : List.Forall₂ (fun a b => Text.sameIgnoringCase a b = true) as bs)
    (hreads : List.Forall₂ s.ReadsAlike as bs) :
    List.Forall₂ Implicated.Alike (as.flatMap s.resolveToken) (bs.flatMap s.resolveToken) :=
  List.rel_flatMap
    (forall₂_combine (fun _ _ hab hreads => (resolveToken_alike_iff hab).mpr hreads) h hreads)
    fun _ _ halike => halike

lemma resolveBody_of_parse? {body : String} {e : Expression}
    (h : Expression.parse? body = some e) :
    s.resolveBody body = e.contexts.flatMap s.resolveToken := by
  have htokens : Context.tokens body = e.contexts := by rw [Context.tokens, h]
  rw [resolveBody, isUnreadable, h, htokens, Option.isNone_some, Bool.and_false,
    if_neg Bool.false_ne_true]

/-! ### Spellings that every state reads alike -/

lemma held_of_slotsOf_nil (h : slotsOf a = []) : s.held a = [] := by
  rw [held, h]
  rfl

lemma IsCaseFree.readsAlike (h : Text.sameIgnoringCase a b = true) (hfree : IsCaseFree a b)
    (s : Scope) : s.ReadsAlike a b := by
  obtain hstatic | rfl | ⟨ha, hb⟩ | ⟨front, hfront, ha, hb⟩ := hfree
  · have hstatic' := (Classification.isStatic_congr h).symm.trans hstatic
    rw [ReadsAlike, isRoot, isRoot, hstatic, hstatic', held_of_slotsOf_nil (if_pos hstatic),
      held_of_slotsOf_nil (if_pos hstatic')]
    exact ⟨rfl, .nil⟩
  · exact ⟨rfl, List.forall₂_same.mpr fun t _ => Text.sameIgnoringCase_self t⟩
  · rw [ReadsAlike, ha, hb, held_of_isRoot ha, held_of_isRoot hb]
    exact ⟨rfl, .nil⟩
  · have hopaque := mem_opaquePrefixes_iff.mpr (.inr hfront)
    rw [ReadsAlike, isRoot_of_startsWith hopaque ha, isRoot_of_startsWith hopaque hb,
      held_of_slotsOf_nil (slotsOf_of_hidden hfront ha),
      held_of_slotsOf_nil (slotsOf_of_hidden hfront hb)]
    exact ⟨rfl, .nil⟩

lemma isRoot_of_branch (h : Text.sameIgnoringCase a "github.head_ref" = true)
    (hfront : opaquePrefixes.any (Text.startsWith · a) = false) : isRoot a = true := by
  have hstatic : Classification.isStatic "github.head_ref" = false := by decide +kernel
  rw [isRoot, Classification.isStatic_congr h, hstatic, hfront]
  rfl

def branchName : String := "$\x7b\x7b github.head_ref \x7d\x7d"

lemma taint_branchName (s : Scope) : s.taint branchName = ["github.head_ref"] := by
  have hbodies : Context.bodies branchName = ["github.head_ref"] := by decide +kernel
  have hparse : Expression.parse? "github.head_ref" = some (.name "github.head_ref") :=
    (Expression.parse?_ofList _).trans rfl
  have hcontexts : (Expression.name "github.head_ref").contexts = ["github.head_ref"] := rfl
  rw [taint, hbodies, List.flatMap_singleton, resolveBody_of_parse? hparse, hcontexts,
    List.flatMap_singleton, resolveToken_of_isRoot s (isRoot_of_branch rfl rfl)]
  rfl

/-- A move after which a slot holds a context of the outsider's. -/
def filling : Slot → Move
  | .env name => .bindEnv name branchName
  | .stepEnv name => .enterStep [(name, branchName)]
  | .input name => .enterCall [(name, branchName)]
  | .output token => .bindOutput token branchName

lemma at?_empty (x : Slot) : empty.at? x = none := by
  cases x <;> rfl

lemma eval_ofLast_singleton (s : Scope) (name n text : String) :
    (Content.ofLast n [(name, text)]).eval s = if name = n then some (s.taint text) else none := by
  have hlast : Assoc.last? n [(name, text)] = if name = n then some text else none :=
    Assoc.get?_cons n (name, text) []
  rw [Content.ofLast, hlast]
  by_cases h : name = n
  · rw [if_pos h, if_pos h]
    rfl
  · rw [if_neg h, if_neg h]
    rfl

lemma eval_asked_empty (x : Slot) : (Content.asked [x]).eval empty = none := by
  rw [Content.eval, ask_cons, at?_empty]
  rfl

lemma at?_filling (x y : Slot) :
    (empty.perform (filling x)).at? y = if x = y then some ["github.head_ref"] else none := by
  have htaint := taint_branchName empty
  rw [at?_perform isSettled_empty]
  cases x with
  | env name =>
    cases y with
    | env n =>
      by_cases h : n = name
      · rw [filling, Move.content, if_pos h, Content.eval, htaint, h, if_pos rfl]
      · rw [filling, Move.content, if_neg h, eval_asked_empty, if_neg (by simpa using Ne.symm h)]
    | stepEnv n | input n | output n => exact eval_asked_empty _
  | output name =>
    cases y with
    | output n =>
      by_cases h : n = name
      · rw [filling, Move.content, if_pos h, Content.eval, htaint, h, if_pos rfl]
      · rw [filling, Move.content, if_neg h, eval_asked_empty, if_neg (by simpa using Ne.symm h)]
    | stepEnv n | input n | env n => exact eval_asked_empty _
  | stepEnv name =>
    cases y with
    | stepEnv n => rw [filling, Move.content, eval_ofLast_singleton, htaint]; simp
    | env n | input n | output n => exact eval_asked_empty _
  | input name =>
    cases y with
    | input n => rw [filling, Move.content, eval_ofLast_singleton, htaint]; simp
    | env n => rfl
    | stepEnv n | output n => exact eval_asked_empty _

lemma ReadsAlike.symm (h : s.ReadsAlike a b) : s.ReadsAlike b a :=
  ⟨h.1.symm, h.2.flip.imp fun _ _ htu => (Text.sameIgnoringCase_comm _ _).trans htu⟩

/-- Spellings have no slot in common, so that one of them can be filled alone. -/
lemma slotsOf_eq_nil_of_readsAlike (hne : a ≠ b)
    (hreads : ∀ ms, (empty.performAll ms).ReadsAlike a b) : slotsOf a = [] := by
  cases hslots : slotsOf a with
  | nil => rfl
  | cons x rest =>
    have hx : x.token = a := token_of_mem_slotsOf (hslots ▸ List.mem_cons_self)
    have ha : (empty.perform (filling x)).held a = ["github.head_ref"] := by
      rw [held, hslots, ask_cons, at?_filling, if_pos rfl]
      rfl
    have hb : (empty.perform (filling x)).held b = [] := by
      have hnone : (empty.perform (filling x)).ask (slotsOf b) = none := by
        rw [ask_eq_none_iff]
        intro y hy
        rw [at?_filling, if_neg]
        rintro rfl
        exact hne (hx.symm.trans (token_of_mem_slotsOf hy))
      rw [held, hnone]
      rfl
    have hforall := (hreads [filling x]).2
    rw [show empty.performAll [filling x] = empty.perform (filling x) from rfl, ha, hb] at hforall
    cases hforall

lemma isCaseFree_of_readsAlike (h : Text.sameIgnoringCase a b = true)
    (hreads : ∀ ms, (empty.performAll ms).ReadsAlike a b) : IsCaseFree a b := by
  by_cases hstatic : Classification.isStatic a = true
  · exact .inl hstatic
  by_cases hne : a = b
  · exact .inr (.inl hne)
  have hroots : isRoot a = isRoot b := (hreads []).1
  cases hb : isRoot b with
  | true => exact .inr (.inr (.inl ⟨hroots.trans hb, hb⟩))
  | false =>
    rw [Bool.not_eq_true] at hstatic
    have hstatic' := (Classification.isStatic_congr h).symm.trans hstatic
    obtain ⟨p, hp, hpa⟩ := exists_hidden_front hstatic (hroots.trans hb)
      (slotsOf_eq_nil_of_readsAlike hne hreads)
    obtain ⟨q, hq, hqb⟩ := exists_hidden_front hstatic' hb
      (slotsOf_eq_nil_of_readsAlike (Ne.symm hne) fun ms => (hreads ms).symm)
    obtain rfl := front_unique (mem_opaquePrefixes_iff.mpr (.inr hp))
      (mem_opaquePrefixes_iff.mpr (.inr hq)) hpa hqb h
    exact .inr (.inr (.inr ⟨p, hp, hpa, hqb⟩))

end Scope

namespace Audit

open WorkflowAudit.Graph (within)
open Scope (IsCaseFree branchName)

/-- Two bodies that are the same but for the case of letters are resolved alike in a state that
reads their contexts alike, and in every state when the spellings are free of case. Where the bodies
mention one context, they are resolved alike nowhere else. -/
theorem spellings_resolve_alike {body body' : String} {e e' : Expression}
    (hbody : Expression.parse? body = some e) (hbody' : Expression.parse? body' = some e')
    (hsame : e.same e' = true) :
    (∀ s : Scope, List.Forall₂ s.ReadsAlike e.contexts e'.contexts →
        List.Forall₂ Implicated.Alike (s.resolveBody body) (s.resolveBody body')) ∧
      (List.Forall₂ IsCaseFree e.contexts e'.contexts → ∀ s : Scope,
        List.Forall₂ Implicated.Alike (s.resolveBody body) (s.resolveBody body')) ∧
      ∀ a b, e.contexts = [a] → e'.contexts = [b] →
        (∀ s : Scope, List.Forall₂ Implicated.Alike (s.resolveBody body) (s.resolveBody body') ↔
          s.ReadsAlike a b) ∧
        ((∀ ms, List.Forall₂ Implicated.Alike ((Scope.empty.performAll ms).resolveBody body)
            ((Scope.empty.performAll ms).resolveBody body')) ↔ IsCaseFree a b) := by
  have hspelled := Expression.forall₂_contexts e e' hsame
  have halike (s : Scope) (h : List.Forall₂ s.ReadsAlike e.contexts e'.contexts) :
      List.Forall₂ Implicated.Alike (s.resolveBody body) (s.resolveBody body') := by
    rw [Scope.resolveBody_of_parse? hbody, Scope.resolveBody_of_parse? hbody']
    exact Scope.resolveTokens_alike hspelled h
  refine ⟨halike, fun hfree s => halike s ?_, fun a b ha hb => ?_⟩
  · exact forall₂_combine (fun a b hab hfree => hfree.readsAlike hab s) hspelled hfree
  rw [ha, hb, List.forall₂_cons] at hspelled
  have hiff (s : Scope) :
      List.Forall₂ Implicated.Alike (s.resolveBody body) (s.resolveBody body') ↔
        s.ReadsAlike a b := by
    rw [Scope.resolveBody_of_parse? hbody, Scope.resolveBody_of_parse? hbody', ha, hb,
      List.flatMap_singleton, List.flatMap_singleton]
    exact Scope.resolveToken_alike_iff hspelled.1
  refine ⟨hiff, fun h => ?_, fun hfree ms => (hiff _).mpr (hfree.readsAlike hspelled.1 _)⟩
  exact Scope.isCaseFree_of_readsAlike hspelled.1 fun ms => (hiff _).mp (h ms)

/-- Static contexts and roots may be written in any letters, as long as those of `env` stay. -/
theorem mixed_spellings_alike :
    let e := Expression.call "format" [.name "github.head_ref", .name "github.sha", .name "env.A"]
    let e' := Expression.call "FORMAT" [.name "GitHub.Head_Ref", .name "GITHUB.SHA", .name "env.A"]
    Expression.parse? "format(github.head_ref, github.sha, env.A)" = some e ∧
      Expression.parse? "FORMAT(GitHub.Head_Ref, GITHUB.SHA, env.A)" = some e' ∧
      e.same e' = true ∧ List.Forall₂ IsCaseFree e.contexts e'.contexts ∧
      ∀ s : Scope, List.Forall₂ Implicated.Alike
        (s.resolveBody "format(github.head_ref, github.sha, env.A)")
        (s.resolveBody "FORMAT(GitHub.Head_Ref, GITHUB.SHA, env.A)") := by
  intro e e'
  have hbody : Expression.parse? "format(github.head_ref, github.sha, env.A)" = some e :=
    (Expression.parse?_ofList _).trans rfl
  have hbody' : Expression.parse? "FORMAT(GitHub.Head_Ref, GITHUB.SHA, env.A)" = some e' :=
    (Expression.parse?_ofList _).trans rfl
  have hfree : List.Forall₂ IsCaseFree e.contexts e'.contexts :=
    .cons (.inr (.inr (.inl ⟨Scope.isRoot_of_branch rfl rfl, Scope.isRoot_of_branch rfl rfl⟩))) <|
      .cons (.inl (by decide +kernel)) <| .cons (.inr (.inl rfl)) .nil
  exact ⟨hbody, hbody', rfl, hfree, (spellings_resolve_alike hbody hbody' rfl).2.1 hfree⟩

/-- A workflow with one job, whose environment has one name. -/
def titled : Document where
  repo := "o/r"
  ref := "HEAD"
  path := "ci.yml"
  content := some
    { isComposite := false
      name := none
      triggers := ["issues"]
      env := []
      jobs :=
        [⟨"build", none, [], [("TITLE", branchName)], [], [], none, none, none, none, none,
          [⟨0, none, none, none, some "echo $\x7b\x7b env.TITLE \x7d\x7d", [], [], none⟩]⟩] }

/-- In the step of the workflow, the name leads to the branch as it is written in the job, is taken
for a context of its own under a prefix in capitals, and is unknown in lower case. -/
theorem capitals_resolve_apart :
    ∃ walk, Walk.along nothingKnown (within [] [] .default titled) [1, 2, 3] = some walk ∧
      Expression.parse? "env.TITLE" = some (.name "env.TITLE") ∧
      Expression.parse? "ENV.TITLE" = some (.name "ENV.TITLE") ∧
      (Expression.name "env.TITLE").same (.name "ENV.TITLE") = true ∧
      walk.scope.resolveBody "env.TITLE" = [⟨"github.head_ref", .env, some "env.TITLE"⟩] ∧
      walk.scope.resolveBody "ENV.TITLE" = [⟨"ENV.TITLE", .direct, none⟩] ∧
      walk.scope.resolveBody "env.title" = [] ∧
      ¬ List.Forall₂ Implicated.Alike (walk.scope.resolveBody "env.TITLE")
        (walk.scope.resolveBody "ENV.TITLE") := by
  have hwalk : ∃ walk ∈ Walk.along nothingKnown (within [] [] .default titled) [1, 2, 3],
      walk.scope.resolveBody "env.TITLE" = [⟨"github.head_ref", .env, some "env.TITLE"⟩] ∧
      walk.scope.resolveBody "ENV.TITLE" = [⟨"ENV.TITLE", .direct, none⟩] ∧
      walk.scope.resolveBody "env.title" = [] := by
    decide +kernel
  obtain ⟨walk, hwalk, hlower, hcapital, hname⟩ := hwalk
  refine ⟨walk, hwalk, (Expression.parse?_ofList _).trans rfl,
    (Expression.parse?_ofList _).trans rfl, rfl, hlower, hcapital, hname, ?_⟩
  rw [hlower, hcapital]
  rintro (_ | ⟨halike, _⟩)
  exact Origin.noConfusion halike.1

end Audit

end WorkflowAudit
