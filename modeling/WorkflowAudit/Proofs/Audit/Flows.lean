import Mathlib.Data.Set.Finite.Basic
import WorkflowAudit.Proofs.Audit.Scopes
import WorkflowAudit.Proofs.Context.Interpolation

/-! Which slots of a scope have a say in what depends on it later. Two scopes that differ in a few
slots come to differ only where one of these has a say; and where a slot has a say, a context that
is put into it is carried along. -/

namespace WorkflowAudit

namespace Context

open Expression.Token (startsName continuesName)

variable {c : Char} {cs : List Char}

lemma trimChars_name (h : ∀ c ∈ cs, continuesName c = true) : Text.trimChars cs = cs := by
  have hvisible : ∀ c ∈ cs, Text.isBlank c = false := fun c hc =>
    Expression.Token.isBlank_of_continuesName (h c hc)
  apply Text.between_self
  constructor
  · exact fun d hd => hvisible d (List.mem_of_mem_head? hd)
  · exact fun d hd => hvisible d (List.mem_of_mem_getLast? hd)

/-- A name in a fence is the one body of its text. -/
lemma bodies_fenced (h : ∀ c ∈ cs, continuesName c = true) :
    bodies (String.ofList (Expression.fenced cs)) = [String.ofList cs] := by
  have hpasses : Passes false false cs := passes_of_class rfl rfl h
  rw [hpasses.bodies_fenced, trimChars_name h]

/-- A name mentions itself. -/
lemma tokens_name (hc : startsName c = true) (h : ∀ d ∈ cs, continuesName d = true)
    (hb : Expression.isBoolean (String.ofList (c :: cs)) = false) :
    tokens (String.ofList (c :: cs)) = [String.ofList (c :: cs)] := by
  have hparse := Expression.parse?_name hc h
  simp only [tokens, hparse, Expression.contexts, hb, Bool.false_eq_true, if_false]

/-- Names that are different for different numbers, and none of which is known. -/
def marker (n : Nat) : List Char := 'x' :: List.replicate n 'x'

lemma continuesName_marker (n : Nat) : ∀ c ∈ marker n, continuesName c = true := by
  intro c hc
  rcases List.mem_cons.mp hc with rfl | hc
  · rfl
  · rw [List.eq_of_mem_replicate hc]
    rfl

lemma marker_injective : Function.Injective fun n => String.ofList (marker n) := by
  intro m n h
  simpa [marker] using congrArg List.length (String.ofList_injective h)

/-- A context is not static when no pattern has its first component. -/
lemma isStatic_eq_false {context part : String} {parts : List String}
    (hsplit : Text.split '.' context = part :: parts)
    (hfirst : ∀ p ∈ Classification.staticPatterns, ∃ q ∈ p.components.head?,
      (q == "*") = false ∧ Text.sameIgnoringCase q part = false) :
    Classification.isStatic context = false := by
  rw [Classification.isStatic, List.any_eq_false]
  intro p hp
  obtain ⟨q, hq, hstar, hdiffers⟩ := hfirst p hp
  obtain ⟨rest, hcomponents⟩ := List.head?_eq_some_iff.mp hq
  rw [Pattern.covers, hcomponents, hsplit, Pattern.coversComponents, hstar, hdiffers]
  exact Bool.false_ne_true

lemma exists_split_marker (n : Nat) :
    ∃ part parts, Text.split '.' (String.ofList (marker n)) =
      String.ofList ('x' :: part) :: parts := by
  rw [Text.split, String.toList_ofList, marker, Text.splitChars, if_neg (by decide)]
  cases Text.splitChars '.' (List.replicate n 'x') with
  | nil => exact ⟨[], [], rfl⟩
  | cons part parts => exact ⟨part, parts.map String.ofList, rfl⟩

lemma isStatic_marker (n : Nat) : Classification.isStatic (String.ofList (marker n)) = false := by
  have hhead : ∀ p ∈ Classification.staticPatterns, ∃ q ∈ p.components.head?,
      (q == "*") = false ∧ (q.toList.map Char.toLower).head? ≠ some 'x' := by
    decide +kernel
  obtain ⟨part, parts, hsplit⟩ := exists_split_marker n
  refine isStatic_eq_false hsplit fun p hp => ?_
  obtain ⟨q, hq, hstar, hne⟩ := hhead p hp
  refine ⟨q, hq, hstar, ?_⟩
  rw [Text.sameIgnoringCase, String.toList_ofList, List.map_cons, beq_eq_false_iff_ne]
  intro heq
  exact hne (by rw [heq]; rfl)

lemma isRoot_marker (n : Nat) : Scope.isRoot (String.ofList (marker n)) = true := by
  rw [Scope.isRoot, isStatic_marker]
  simp [Scope.opaquePrefixes, Text.startsWith, marker, Text.afterFront]

lemma isBoolean_marker (n : Nat) : Expression.isBoolean (String.ofList (marker n)) = false := by
  simp [Expression.isBoolean, Text.sameIgnoringCase, marker]

end Context

/-- For any texts there is a value that depends on one context, which is none of them. -/
lemma Scope.exists_fresh (known : List String) :
    ∃ r text, r ∉ known ∧ ∀ s : Scope, s.taint text = [r] := by
  obtain ⟨n, hn⟩ : ∃ n, String.ofList (Context.marker n) ∉ known := by
    by_contra hall
    push Not at hall
    refine Set.infinite_range_of_injective Context.marker_injective ?_
    exact (List.finite_toSet known).subset (Set.range_subset_iff.mpr hall)
  have htokens : Context.tokens (String.ofList (Context.marker n)) =
      [String.ofList (Context.marker n)] :=
    Context.tokens_name rfl
      (fun c hc => Context.continuesName_marker n c (List.mem_cons_of_mem _ hc))
      (Context.isBoolean_marker n)
  refine ⟨_, String.ofList (Expression.fenced (Context.marker n)), hn, fun s => ?_⟩
  have hresolve : s.resolveToken (String.ofList (Context.marker n)) =
      [⟨String.ofList (Context.marker n), .direct, none⟩] := by
    rw [resolveToken, resolve_eq, Context.isRoot_marker, if_pos rfl]
    rfl
  rw [taint, Context.bodies_fenced (Context.continuesName_marker n), List.flatMap_singleton,
    resolveBody_of_mem s (by rw [htokens]; exact List.mem_singleton_self _), htokens,
    List.flatMap_singleton, hresolve]
  rfl

namespace Scope

/-- A slot has a say in a content. -/
def HasSay (s : Scope) : Content → Slot → Prop
  | .value text, x => s.Reads (Context.bodies text) x
  | .asked slots, x => s.Asks slots x

/-- What is known of one slot gets to another one by moves. -/
def Reaches (s : Scope) : List Move → Slot → Slot → Prop
  | [], x, z => x = z
  | m :: ms, x, z => ∃ y, s.HasSay (m.content y) x ∧ (s.perform m).Reaches ms y z

/-- What is known of a slot gets to the bodies of a script behind the moves. -/
def FlowsInto (s : Scope) (ms : List Move) (bodies : List String) (x : Slot) : Prop :=
  ∃ z, s.Reaches ms x z ∧ (s.performAll ms).Reads bodies z

/-- The scopes agree on all slots but some. -/
def AgreeOff (F : Slot → Prop) (s s' : Scope) : Prop := ∀ x, ¬ F x → s.at? x = s'.at? x

variable {s s' : Scope} {F : Slot → Prop} {m : Move} {ms : List Move} {c : Content} {x z : Slot}
  {slots : List Slot} {bodies : List String} {text r : String}

lemma eval_congr (h : ∀ x, s.HasSay c x → s.at? x = s'.at? x) : c.eval s = c.eval s' := by
  cases c with
  | value text => exact congrArg some (taint_congr h)
  | asked slots => exact ask_congr h

/-- After a move the scopes differ only where a slot in which they differed has a say. -/
lemma AgreeOff.perform (h : AgreeOff F s s') (hs : s.IsSettled) (hs' : s'.IsSettled) (m : Move) :
    AgreeOff (fun y => ∃ x, F x ∧ s.HasSay (m.content y) x) (s.perform m) (s'.perform m) := by
  intro y hy
  rw [at?_perform hs, at?_perform hs']
  exact eval_congr fun x hx => h x fun hF => hy ⟨x, hF, hx⟩

lemma AgreeOff.performAll (h : AgreeOff F s s') (hs : s.IsSettled) (hs' : s'.IsSettled)
    (ms : List Move) :
    AgreeOff (fun z => ∃ x, F x ∧ s.Reaches ms x z) (s.performAll ms) (s'.performAll ms) := by
  induction ms generalizing s s' F with
  | nil => exact fun z hz => h z fun hF => hz ⟨z, hF, rfl⟩
  | cons m ms ih =>
    intro z hz
    refine ih (h.perform hs hs' m) (hs.perform m) (hs'.perform m) z ?_
    rintro ⟨y, ⟨x, hF, hsay⟩, hreach⟩
    exact hz ⟨x, hF, y, hsay, hreach⟩

/-- A call leaves no trace of the environment and the inputs that the caller had. -/
lemma AgreeOff.call (h : AgreeOff F s s') (hs : s.IsSettled) (hs' : s'.IsSettled)
    (hF : ∀ x, F x → (∃ n, x = .env n) ∨ ∃ n, x = .input n) {inputs : Assoc String}
    (hin : ∀ e ∈ inputs, s'.taint e.2 = s.taint e.2) :
    AgreeOff (fun _ => False) (s.perform (.enterCall inputs)) (s'.perform (.enterCall inputs)) := by
  intro x _
  rw [at?_perform hs, at?_perform hs']
  cases x with
  | env n => rfl
  | input n =>
    rw [Move.content, Content.ofLast]
    cases hlast : Assoc.last? n inputs with
    | none => rfl
    | some text =>
      obtain ⟨e, he, rfl⟩ := Assoc.exists_mem_of_last? hlast
      exact congrArg some (hin e he).symm
  | stepEnv n | output n =>
    refine ask_congr fun y hy => h y fun hy' => ?_
    rcases hF y hy' with ⟨m, rfl⟩ | ⟨m, rfl⟩ <;> simp [Asks] at hy

/-- Scopes that agree on everything resolve everything in the same way, also later on. -/
lemma AgreeOff.resolve_eq (h : AgreeOff (fun _ => False) s s') (hs : s.IsSettled)
    (hs' : s'.IsSettled) (ms : List Move) (token : String) :
    (s.performAll ms).resolve token = (s'.performAll ms).resolve token := by
  have hagree := h.performAll hs hs' ms
  rw [Scope.resolve_eq, Scope.resolve_eq,
    ask_congr fun x _ => hagree x fun ⟨_, hfalse, _⟩ => hfalse]

/-- A script depends on the same contexts in both scopes unless a slot in which they differ flows
into it. -/
lemma AgreeOff.implicated_eq (h : AgreeOff F s s') (hs : s.IsSettled) (hs' : s'.IsSettled)
    (hflow : ∀ x, F x → ¬ s.FlowsInto ms bodies x) :
    (s.performAll ms).implicated bodies = (s'.performAll ms).implicated bodies := by
  refine implicated_congr fun z hz => h.performAll hs hs' ms z ?_
  rintro ⟨x, hF, hreach⟩
  exact hflow x hF ⟨z, hreach, hz⟩

def Holds (r : String) (s : Scope) (x : Slot) : Prop := ∃ t ∈ s.at? x, r ∈ t

/-- Whatever is bound in the second scope only holds a context. -/
def Covers (r : String) (s s' : Scope) : Prop := ∀ y, s.at? y = none → ∀ t ∈ s'.at? y, r ∈ t

lemma Covers.exists_ask (h : Covers r s s') (hx : s.Asks slots x) (hr : Holds r s' x) :
    ∃ t ∈ s'.ask slots, r ∈ t := by
  induction slots with
  | nil => exact hx.elim
  | cons y rest ih =>
    rw [ask_cons]
    rcases hx with rfl | ⟨hunbound, hx⟩
    · obtain ⟨t, ht, hr⟩ := hr
      exact ⟨t, by rw [Option.mem_def.mp ht]; rfl, hr⟩
    · cases hy : s'.at? y with
      | none => simpa using ih hx
      | some t => exact ⟨t, rfl, h y hunbound t hy⟩

lemma Covers.mem_resolveBodies (h : Covers r s s') (hx : s.Reads bodies x) (hr : Holds r s' x) :
    r ∈ (bodies.flatMap s'.resolveBody).map (·.token) := by
  obtain ⟨body, hbody, token, htoken, hasks⟩ := hx
  obtain ⟨t, ht, hrt⟩ := h.exists_ask hasks hr
  obtain ⟨i, hi, rfl⟩ := List.mem_map.mp (mem_tokens_resolveToken ht hrt)
  refine List.mem_map.mpr ⟨i, List.mem_flatMap.mpr ⟨body, hbody, ?_⟩, rfl⟩
  rw [resolveBody_of_mem s' htoken]
  exact List.mem_flatMap.mpr ⟨token, htoken, hi⟩

lemma Covers.mem_taint (h : Covers r s s') (hx : s.Reads (Context.bodies text) x)
    (hr : Holds r s' x) : r ∈ s'.taint text :=
  (Text.mem_ascending _ _).mpr (h.mem_resolveBodies hx hr)

lemma Covers.exists_implicated (h : Covers r s s') (hx : s.Reads bodies x) (hr : Holds r s' x) :
    ∃ i ∈ s'.implicated bodies, i.token = r := by
  obtain ⟨i, hi, rfl⟩ := List.mem_map.mp (h.mem_resolveBodies hx hr)
  exact ⟨i, List.mem_eraseDups.mpr hi, rfl⟩

lemma Covers.perform (h : Covers r s s') (hs : s.IsSettled) (hs' : s'.IsSettled) (m : Move) :
    Covers r (s.perform m) (s'.perform m) := by
  intro y hy t ht
  rw [at?_perform hs] at hy
  rw [at?_perform hs'] at ht
  cases hc : m.content y with
  | value text =>
    rw [hc] at hy
    cases hy
  | asked slots =>
    rw [hc] at hy ht
    obtain ⟨x, hx, hxt⟩ := List.exists_of_findSome?_eq_some ht
    exact h x (ask_eq_none_iff.mp hy x hx) t hxt

/-- A move carries a context to where its slot has a say. -/
lemma Covers.holds_perform (h : Covers r s s') (hs' : s'.IsSettled) {y : Slot}
    (hsay : s.HasSay (m.content y) x) (hr : Holds r s' x) : Holds r (s'.perform m) y := by
  rw [Holds, at?_perform hs']
  cases hc : m.content y with
  | value text =>
    rw [hc] at hsay
    exact ⟨_, rfl, h.mem_taint hsay hr⟩
  | asked slots =>
    rw [hc] at hsay
    exact h.exists_ask hsay hr

lemma Covers.exists_implicated_of_flowsInto (h : Covers r s s') (hs : s.IsSettled)
    (hs' : s'.IsSettled) (hflow : s.FlowsInto ms bodies x) (hr : Holds r s' x) :
    ∃ i ∈ (s'.performAll ms).implicated bodies, i.token = r := by
  obtain ⟨z, hreach, hread⟩ := hflow
  induction ms generalizing s s' x with
  | nil =>
    obtain rfl : x = z := hreach
    exact h.exists_implicated hread hr
  | cons m ms ih =>
    obtain ⟨y, hsay, hreach⟩ := hreach
    exact ih (h.perform hs hs' m) (hs.perform m) (hs'.perform m)
      (h.holds_perform hs' hsay hr) hreach hread

/-- A slot that flows into a script has a say in it: with a context in it that the script does not
depend on, the script comes to depend on that context. -/
lemma implicated_ne_of_flowsInto (hs : s.IsSettled) (hs' : s'.IsSettled)
    (hrest : ∀ y, y ≠ x → s'.at? y = s.at? y) (hx : s'.at? x = some [r])
    (hfresh : r ∉ ((s.performAll ms).implicated bodies).map (·.token))
    (hflow : s.FlowsInto ms bodies x) :
    (s'.performAll ms).implicated bodies ≠ (s.performAll ms).implicated bodies := by
  have hcovers : Covers r s s' := by
    intro y hy t ht
    by_cases hyx : y = x
    · subst hyx
      obtain rfl : [r] = t := Option.some.inj (hx.symm.trans ht)
      exact List.mem_singleton_self r
    · rw [hrest y hyx, hy] at ht
      cases ht
  obtain ⟨i, hi, rfl⟩ := hcovers.exists_implicated_of_flowsInto hs hs' hflow
    ⟨[r], hx, List.mem_singleton_self r⟩
  intro heq
  rw [heq] at hi
  exact hfresh (List.mem_map.mpr ⟨i, hi, rfl⟩)

end Scope

end WorkflowAudit
