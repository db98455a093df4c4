import Mathlib.Data.List.Nodup
import WorkflowAudit.Proofs.Audit.Walks

/-! A scope as a store. What a token stands for is asked of a few slots, the first of which that is
bound answers; and a visit binds slots, one after the other, to the taint of a text or to what other
slots held before. -/

namespace WorkflowAudit

namespace Assoc

variable {α β : Type}

/-- The value of a name once all entries have been put in. -/
def last? (key : String) (entries : List (String × α)) : Option α := get? key entries.reverse

lemma get?_cons (key : String) (e : String × α) (m : Assoc α) :
    get? key (e :: m) = if e.1 = key then some e.2 else get? key m := by
  by_cases h : e.1 = key <;> simp [get?, h]

lemma get?_append (key : String) (m m' : Assoc α) :
    get? key (m ++ m') = (get? key m).or (get? key m') := by
  induction m with
  | nil => rfl
  | cons e m ih =>
    rw [List.cons_append, get?_cons, get?_cons, ih]
    split <;> rfl

lemma last?_cons (key : String) (e : String × α) (entries : List (String × α)) :
    last? key (e :: entries) = (last? key entries).or (if e.1 = key then some e.2 else none) := by
  rw [last?, List.reverse_cons, get?_append, get?_cons]
  rfl

lemma last?_concat (key : String) (entries : List (String × α)) (e : String × α) :
    last? key (entries ++ [e]) = if e.1 = key then some e.2 else last? key entries := by
  rw [last?, List.reverse_append, List.reverse_singleton, List.singleton_append, get?_cons, last?]

lemma get?_foldl_insert (key : String) (entries : List (String × α)) (m : Assoc α) :
    get? key (entries.foldl (fun m e => insert e.1 e.2 m) m) =
      (last? key entries).or (get? key m) := by
  induction entries generalizing m with
  | nil => rfl
  | cons e entries ih =>
    rw [List.foldl_cons, ih, get?_insert, last?_cons]
    cases last? key entries with
    | some v => rfl
    | none => by_cases h : e.1 = key <;> simp [h, eq_comm (a := key)]

lemma get?_ofList (key : String) (entries : List (String × α)) :
    get? key (ofList entries) = last? key entries := by
  rw [ofList, get?_foldl_insert]
  exact Option.or_none

lemma get?_map (key : String) (f : α → β) (m : Assoc α) :
    get? key (m.map fun e => (e.1, f e.2)) = (get? key m).map f := by
  induction m with
  | nil => rfl
  | cons e m ih =>
    rw [List.map_cons, get?_cons, get?_cons, ih]
    split <;> rfl

lemma last?_map (key : String) (f : α → β) (entries : List (String × α)) :
    last? key (entries.map fun e => (e.1, f e.2)) = (last? key entries).map f := by
  rw [last?, last?, ← get?_map, List.map_reverse]

lemma exists_mem_of_get? {key : String} {v : α} {m : Assoc α} (h : get? key m = some v) :
    ∃ e ∈ m, e.2 = v := by
  obtain ⟨e, he, rfl⟩ := Option.map_eq_some_iff.mp h
  exact ⟨e, List.mem_of_find?_eq_some he, rfl⟩

lemma exists_mem_of_last? {key : String} {v : α} {entries : List (String × α)}
    (h : last? key entries = some v) : ∃ e ∈ entries, e.2 = v := by
  obtain ⟨e, he, hv⟩ := exists_mem_of_get? h
  exact ⟨e, List.mem_reverse.mp he, hv⟩

lemma mem_keys_insert {key k : String} {v : α} {m : Assoc α}
    (h : k ∈ (insert key v m).map Prod.fst) : k = key ∨ k ∈ m.map Prod.fst := by
  induction m with
  | nil => exact .inl (List.mem_singleton.mp h)
  | cons e m ih =>
    rw [insert] at h
    split at h
    · exact .inr h
    · rcases List.mem_cons.mp h with rfl | h
      · exact .inr List.mem_cons_self
      · exact (ih h).imp_right (List.mem_cons_of_mem _)

lemma nodup_keys_insert {key : String} {v : α} {m : Assoc α} (h : (m.map Prod.fst).Nodup) :
    ((insert key v m).map Prod.fst).Nodup := by
  induction m with
  | nil => exact List.nodup_singleton _
  | cons e m ih =>
    obtain ⟨hnew, hrest⟩ := List.nodup_cons.mp h
    rw [insert]
    split
    · exact List.nodup_cons.mpr ⟨hnew, hrest⟩
    · next hne =>
      refine List.nodup_cons.mpr ⟨fun hmem => ?_, ih hrest⟩
      exact (mem_keys_insert hmem).elim hne hnew

lemma nodup_keys_ofList (entries : List (String × α)) : ((ofList entries).map Prod.fst).Nodup :=
  List.foldlRecOn (motive := fun m : Assoc α => (m.map Prod.fst).Nodup) entries _ List.nodup_nil
    fun _ h _ _ => nodup_keys_insert h

/-- Where no name is put in twice, the first value of a name is its last one. -/
lemma last?_eq_get? {key : String} {m : Assoc α} (h : (m.map Prod.fst).Nodup) :
    last? key m = get? key m := by
  induction m with
  | nil => rfl
  | cons e m ih =>
    obtain ⟨hnew, hrest⟩ := List.nodup_cons.mp h
    rw [last?_cons, get?_cons, ih hrest]
    split
    · next hkey =>
      have hnone : get? key m = none := by
        rw [get?, Option.map_eq_none_iff, List.find?_eq_none]
        intro e' he' heq
        rw [decide_eq_true_eq] at heq
        exact hnew (List.mem_map.mpr ⟨e', he', heq.trans hkey.symm⟩)
      rw [hnone, Option.none_or]
    · exact Option.or_none

end Assoc

/-- A name that something may be known of. -/
inductive Slot where
  | env (name : String)
  | stepEnv (name : String)
  | input (name : String)
  | output (token : String)
  deriving DecidableEq

namespace Scope

def at? (s : Scope) : Slot → Option Taint
  | .env name => s.env.get? name
  | .stepEnv name => s.stepEnv.get? name
  | .input name => s.inputs.get? name
  | .output token => s.outputs.get? token

/-- The slots that a token stands for, in the order in which they are asked. -/
def slotsOf (token : String) : List Slot :=
  if Classification.isStatic token then []
  else
    match Text.dropFront "env." token with
    | some name => [.stepEnv name, .env name]
    | none =>
      match Text.dropFront "inputs." token with
      | some name => [.input name]
      | none => if Text.startsWith "needs." token then [.output token] else []

/-- What the first slot that is bound holds. -/
def ask (s : Scope) (slots : List Slot) : Option Taint := slots.findSome? s.at?

/-- A slot comes to be asked: none before it is bound. -/
def Asks (s : Scope) : List Slot → Slot → Prop
  | [], _ => False
  | y :: rest, x => x = y ∨ s.at? y = none ∧ s.Asks rest x

/-- A token that the bodies mention comes to ask a slot. -/
def Reads (s : Scope) (bodies : List String) (x : Slot) : Prop :=
  ∃ body ∈ bodies, ∃ token ∈ Context.tokens body, s.Asks (slotsOf token) x

variable {s s' : Scope} {slots : List Slot} {x : Slot} {bodies : List String}
  {token text r : String}

@[simp]
lemma ask_nil : s.ask [] = none := rfl

@[simp]
lemma ask_cons (s : Scope) (y : Slot) (rest : List Slot) :
    s.ask (y :: rest) = (s.at? y).or (s.ask rest) := by
  rw [ask, List.findSome?_cons, ask]
  cases s.at? y <;> rfl

lemma ask_congr (h : ∀ x, s.Asks slots x → s.at? x = s'.at? x) : s.ask slots = s'.ask slots := by
  induction slots with
  | nil => rfl
  | cons y rest ih =>
    rw [ask_cons, ask_cons, ← h y (.inl rfl)]
    cases hbound : s.at? y with
    | some t => rfl
    | none => exact ih fun x hx => h x (.inr ⟨hbound, hx⟩)

lemma ask_eq_none_iff : s.ask slots = none ↔ ∀ x ∈ slots, s.at? x = none :=
  List.findSome?_eq_none_iff

/-- How a token that is asked for reaches the outsider. -/
def originOf (token : String) : Origin :=
  if Text.startsWith "env." token then .env
  else if Text.startsWith "inputs." token then .input
  else .output

lemma startsWith_of_dropFront {front rest : String} (h : Text.dropFront front token = some rest) :
    Text.startsWith front token = true := by
  rw [Text.dropFront] at h
  rw [Text.startsWith]
  exact Option.isSome_iff_exists.mpr ((Option.map_eq_some_iff.mp h).imp fun _ h => h.1)

lemma startsWith_of_dropFront_eq_none {front : String} (h : Text.dropFront front token = none) :
    Text.startsWith front token = false := by
  rw [Text.dropFront, Option.map_eq_none_iff] at h
  rw [Text.startsWith, h]
  rfl

lemma isRoot_of_startsWith {front : String} (hfront : front ∈ opaquePrefixes)
    (h : Text.startsWith front token = true) : isRoot token = false := by
  have hany : opaquePrefixes.any (Text.startsWith · token) = true :=
    List.any_eq_true.mpr ⟨front, hfront, h⟩
  rw [isRoot, hany, Bool.not_true, Bool.and_false]

lemma isRoot_iff :
    isRoot token = true ↔ Classification.isStatic token = false ∧
      ∀ front ∈ opaquePrefixes, Text.startsWith front token = false := by
  rw [isRoot, Bool.and_eq_true, Bool.not_eq_true', Bool.not_eq_true', List.any_eq_false]
  simp only [Bool.not_eq_true]

lemma isUnreadable_iff {body : String} :
    isUnreadable body = true ↔ Expression.parse? body = none ∧ Context.tokens body = [] := by
  rw [isUnreadable, Bool.and_eq_true, List.isEmpty_iff, Option.isNone_iff_eq_none, and_comm]

/-- A token stands for itself, or for what the first bound one of its slots holds. -/
lemma resolve_eq (s : Scope) (token : String) :
    s.resolve token =
      if isRoot token then some (.direct, [token])
      else carried (originOf token) (s.ask (slotsOf token)) := by
  rw [resolve, slotsOf]
  by_cases hstatic : Classification.isStatic token = true
  · simp [isRoot, hstatic, carried]
  rw [if_neg hstatic, if_neg hstatic]
  cases henv : Text.dropFront "env." token with
  | some name =>
    have hstarts := startsWith_of_dropFront henv
    rw [isRoot_of_startsWith (by simp [opaquePrefixes]) hstarts, originOf, if_pos hstarts]
    simp [at?]
  | none =>
    cases hinputs : Text.dropFront "inputs." token with
    | some name =>
      have hstarts := startsWith_of_dropFront hinputs
      rw [isRoot_of_startsWith (by simp [opaquePrefixes]) hstarts, originOf,
        startsWith_of_dropFront_eq_none henv, if_neg Bool.false_ne_true, if_pos hstarts]
      simp [at?]
    | none =>
      by_cases hneeds : Text.startsWith "needs." token = true
      · rw [isRoot_of_startsWith (by simp [opaquePrefixes]) hneeds, originOf,
          startsWith_of_dropFront_eq_none henv, if_neg Bool.false_ne_true,
          startsWith_of_dropFront_eq_none hinputs, if_neg Bool.false_ne_true]
        simp [at?, hneeds]
      · simp [hneeds, carried]

lemma resolveToken_of_isRoot (s : Scope) (h : isRoot token = true) :
    s.resolveToken token = [⟨token, .direct, none⟩] := by
  rw [resolveToken, resolve_eq, if_pos h]
  rfl

lemma slotsOf_of_isRoot (h : isRoot token = true) : slotsOf token = [] := by
  have hnot {front : String} (hfront : front ∈ opaquePrefixes) :
      Text.startsWith front token = false := by
    rw [Bool.eq_false_iff]
    intro hstarts
    exact Bool.false_ne_true ((isRoot_of_startsWith hfront hstarts).symm.trans h)
  have hdrop {front : String} (hfront : front ∈ opaquePrefixes) :
      Text.dropFront front token = none := by
    cases hrest : Text.dropFront front token with
    | none => rfl
    | some rest =>
      exact absurd ((hnot hfront).symm.trans (startsWith_of_dropFront hrest)) Bool.false_ne_true
  rw [slotsOf, hdrop (by simp [opaquePrefixes]), hdrop (by simp [opaquePrefixes]),
    hnot (by simp [opaquePrefixes])]
  split <;> rfl

lemma resolveToken_congr (h : s.ask (slotsOf token) = s'.ask (slotsOf token)) :
    s.resolveToken token = s'.resolveToken token := by
  rw [resolveToken, resolveToken, resolve_eq, resolve_eq, h]

lemma mem_tokens_resolveToken {t : Taint} (h : s.ask (slotsOf token) = some t) (hr : r ∈ t) :
    r ∈ (s.resolveToken token).map (·.token) := by
  have hroot : isRoot token = false := by
    rw [Bool.eq_false_iff]
    intro hroot
    rw [slotsOf_of_isRoot hroot] at h
    cases h
  rw [resolveToken, resolve_eq, hroot, if_neg Bool.false_ne_true, h]
  cases t with
  | nil => exact absurd hr List.not_mem_nil
  | cons a t => simpa [carried] using hr

lemma resolveBody_of_mem (s : Scope) {body : String} (h : token ∈ Context.tokens body) :
    s.resolveBody body = (Context.tokens body).flatMap s.resolveToken := by
  have hne : (Context.tokens body).isEmpty = false := by
    rw [List.isEmpty_eq_false_iff]
    exact List.ne_nil_of_mem h
  rw [resolveBody, isUnreadable, hne, Bool.false_and, if_neg Bool.false_ne_true]

lemma mem_implicated_iff {bodies : List String} {i : Implicated} :
    i ∈ s.implicated bodies ↔ ∃ body ∈ bodies, i ∈ s.resolveBody body := by
  rw [implicated, List.mem_eraseDups, List.mem_flatMap]

/-- What the bodies depend on is decided by what is known of the slots that they read. -/
lemma resolveBodies_congr (h : ∀ x, s.Reads bodies x → s.at? x = s'.at? x) :
    bodies.flatMap s.resolveBody = bodies.flatMap s'.resolveBody := by
  refine List.flatMap_congr fun body hbody => ?_
  rw [resolveBody, resolveBody]
  congr 1
  refine List.flatMap_congr fun token htoken => resolveToken_congr (ask_congr fun x hx => ?_)
  exact h x ⟨body, hbody, token, htoken, hx⟩

lemma implicated_congr (h : ∀ x, s.Reads bodies x → s.at? x = s'.at? x) :
    s.implicated bodies = s'.implicated bodies := by
  rw [implicated, implicated, resolveBodies_congr h]

lemma taint_congr (h : ∀ x, s.Reads (Context.bodies text) x → s.at? x = s'.at? x) :
    s.taint text = s'.taint text := by
  rw [taint, taint, resolveBodies_congr h]

end Scope

/-- What a visit does to a scope. -/
inductive Move where
  | bindEnv (name value : String)
  | bindOutput (token value : String)
  | enterStep (env : Assoc String)
  | enterCall (inputs : Assoc String)
  | enterAction (inputs : Assoc String)

/-- What a slot holds after a move: the taint of a text, or the answer of slots as they were before
the move. -/
inductive Content where
  | value (text : String)
  | asked (slots : List Slot)

namespace Content

/-- The value of a name among values, which replace all that was known. -/
def ofLast (name : String) (values : Assoc String) : Content :=
  match Assoc.last? name values with
  | some text => .value text
  | none => .asked []

def eval (s : Scope) : Content → Option Taint
  | .value text => some (s.taint text)
  | .asked slots => s.ask slots

end Content

def Move.content : Move → Slot → Content
  | .bindEnv name value, .env n => if n = name then .value value else .asked [.env n]
  | .bindOutput token value, .output t => if t = token then .value value else .asked [.output t]
  | .enterStep env, .stepEnv n => .ofLast n env
  | .enterCall _, .env _ => .asked []
  | .enterCall inputs, .input n => .ofLast n inputs
  | .enterAction _, .env n => .asked [.stepEnv n, .env n]
  | .enterAction _, .stepEnv _ => .asked []
  | .enterAction inputs, .input n => .ofLast n inputs
  | _, x => .asked [x]

namespace Scope

def perform (s : Scope) : Move → Scope
  | .bindEnv name value => { s with env := s.env.insert name (s.taint value) }
  | .bindOutput token value => { s with outputs := s.outputs.insert token (s.taint value) }
  | .enterStep env => { s with stepEnv := s.taints env }
  | .enterCall inputs => { s with inputs := s.taints inputs, env := [] }
  | .enterAction inputs =>
    { s with
      inputs := s.taints inputs
      env := s.stepEnv.foldl (fun env e => env.insert e.1 e.2) s.env
      stepEnv := [] }

def performAll (s : Scope) (ms : List Move) : Scope := ms.foldl perform s

/-- No name has two values in the environment of the step. -/
def IsSettled (s : Scope) : Prop := (s.stepEnv.map Prod.fst).Nodup

variable {s : Scope} {m : Move} {x : Slot}

lemma get?_taints (s : Scope) (values : Assoc String) (name : String) :
    (s.taints values).get? name = (Content.ofLast name values).eval s := by
  rw [taints, Assoc.get?_ofList, Assoc.last?_map, Content.ofLast]
  cases Assoc.last? name values <;> rfl

lemma isSettled_empty : empty.IsSettled := List.nodup_nil

lemma IsSettled.perform (h : s.IsSettled) (m : Move) : (s.perform m).IsSettled := by
  cases m with
  | enterStep env => exact Assoc.nodup_keys_ofList _
  | enterAction inputs => exact List.nodup_nil
  | bindEnv _ _ | bindOutput _ _ | enterCall _ => exact h

lemma IsSettled.performAll (h : s.IsSettled) (ms : List Move) : (s.performAll ms).IsSettled :=
  List.foldlRecOn (motive := IsSettled) ms _ h fun _ h m _ => h.perform m

/-- What is known after a move. -/
lemma at?_perform (h : s.IsSettled) (m : Move) (x : Slot) :
    (s.perform m).at? x = (m.content x).eval s := by
  cases m with
  | bindEnv name value =>
    cases x with
    | env n =>
      rw [at?, perform, Assoc.get?_insert, Move.content]
      split <;> simp [Content.eval, at?]
    | stepEnv n | input n | output n => simp [at?, perform, Move.content, Content.eval]
  | bindOutput token value =>
    cases x with
    | output t =>
      rw [at?, perform, Assoc.get?_insert, Move.content]
      split <;> simp [Content.eval, at?]
    | stepEnv n | input n | env n => simp [at?, perform, Move.content, Content.eval]
  | enterStep env =>
    cases x with
    | stepEnv n => exact get?_taints s env n
    | env n | input n | output n => simp [at?, perform, Move.content, Content.eval]
  | enterCall inputs =>
    cases x with
    | input n => exact get?_taints s inputs n
    | env n => rfl
    | stepEnv n | output n => simp [at?, perform, Move.content, Content.eval]
  | enterAction inputs =>
    cases x with
    | input n => exact get?_taints s inputs n
    | env n =>
      rw [at?, perform, Assoc.get?_foldl_insert, Assoc.last?_eq_get? h, Move.content]
      simp [Content.eval, at?]
    | stepEnv n => rfl
    | output n => simp [at?, perform, Move.content, Content.eval]

/-- Moves that leave a slot alone. -/
lemma at?_performAll_of_frame (h : s.IsSettled) {ms : List Move}
    (hframe : ∀ m ∈ ms, m.content x = .asked [x]) : (s.performAll ms).at? x = s.at? x := by
  induction ms generalizing s with
  | nil => rfl
  | cons m ms ih =>
    have hm : (s.perform m).at? x = s.at? x := by
      rw [at?_perform h, hframe m List.mem_cons_self, Content.eval, ask_cons, ask_nil,
        Option.or_none]
    exact (ih (h.perform m) fun m' hm' => hframe m' (List.mem_cons_of_mem _ hm')).trans hm

end Scope

namespace Walk

open WorkflowAudit.Graph (Node)
open Source (Knowledge)

def bindAll (env : Assoc String) : List Move := env.map fun e => .bindEnv e.1 e.2

/-- What the visit of a node does, by the node that the path comes from. -/
def movesInto (caller : Option Node) : Node → List Move
  | .workflow w =>
    (match caller with
      | some (.job j) => [.enterCall j.inputs]
      | _ => []) ++ bindAll w.env
  | .job j => bindAll j.env ++ j.outputs.map fun e => .bindOutput (outputName j e.1) e.2
  | .step s => [.enterStep s.env]
  | .action _ =>
    match caller with
    | some (.step s) => [.enterAction s.inputs]
    | _ => []
  | .repo _ => []

def movesAt (g : Graph) (previous : Option Nat) (i : Nat) : List Move :=
  ((g.nodes[i]?).map (movesInto (nodeAt g previous))).getD []

/-- The moves along a path that comes from a node. -/
def movesAlong (g : Graph) (previous : Option Nat) : List Nat → List Move
  | [] => []
  | i :: rest => movesAt g previous i ++ movesAlong g (some i) rest

/-- The scope that a walk along a path leaves, whatever is known. -/
def scopeBehind (g : Graph) (path : List Nat) : Scope :=
  Scope.empty.performAll (movesAlong g none path)

lemma performAll_append (s : Scope) (ms ms' : List Move) :
    s.performAll (ms ++ ms') = (s.performAll ms).performAll ms' :=
  List.foldl_append

lemma performAll_bindAll (s : Scope) (env : Assoc String) :
    s.performAll (bindAll env) = s.withEnv env := by
  rw [Scope.performAll, bindAll, List.foldl_map]
  rfl

lemma scope_enter (k : Knowledge) (g : Graph) (w : Walk) (p : Place) :
    (enter k g w p).scope = w.scope.performAll (movesAt g p.previous p.current) := by
  rw [enter, movesAt]
  cases g.nodes[p.current]? with
  | none => rfl
  | some n =>
    cases n with
    | repo _ => rfl
    | workflow flow =>
      simp only [enterWorkflow, Option.map_some, Option.getD_some, movesInto, performAll_append,
        performAll_bindAll]
      rcases nodeAt g p.previous with _ | _ | _ | _ | _ | _ <;> rfl
    | job j =>
      simp only [enterJob, addOutputs, Option.map_some, Option.getD_some, movesInto,
        performAll_append, performAll_bindAll]
      rw [Scope.performAll, List.foldl_map]
      rfl
    | step s => rfl
    | action a =>
      simp only [enterAction, Option.map_some, Option.getD_some, movesInto]
      rcases nodeAt g p.previous with _ | _ | _ | _ | _ | _ <;> rfl

lemma scope_foldl_enter (k : Knowledge) (g : Graph) (previous : Option Nat) (path : List Nat)
    (w : Walk) :
    ((placesFrom previous path).foldl (enter k g) w).scope =
      w.scope.performAll (movesAlong g previous path) := by
  induction path generalizing previous w with
  | nil => rfl
  | cons i rest ih =>
    rw [placesFrom, List.foldl_cons, ih, scope_enter, movesAlong, performAll_append]

lemma movesAlong_call {g : Graph} {x y : Nat} {job : Graph.Job} {w : Graph.Workflow}
    (hx : g.nodes[x]? = some (.job job)) (hy : g.nodes[y]? = some (.workflow w)) (rest : List Nat) :
    movesAlong g (some x) (y :: rest) =
      .enterCall job.inputs :: (bindAll w.env ++ movesAlong g (some y) rest) := by
  have hcaller : nodeAt g (some x) = some (.job job) := hx
  rw [movesAlong, movesAt, hy, hcaller]
  rfl

lemma movesAlong_append (g : Graph) (previous : Option Nat) (front rest : List Nat) :
    movesAlong g previous (front ++ rest) =
      movesAlong g previous front ++ movesAlong g (front.getLast?.or previous) rest := by
  induction front generalizing previous with
  | nil => simp [movesAlong]
  | cons i front ih =>
    have hlast : (i :: front).getLast?.or previous = front.getLast?.or (some i) := by
      rw [List.getLast?_cons]
      cases front.getLast? <;> rfl
    rw [List.cons_append, movesAlong, ih, movesAlong, hlast, List.append_assoc]

lemma isSettled_scopeBehind (g : Graph) (path : List Nat) : (scopeBehind g path).IsSettled :=
  Scope.isSettled_empty.performAll _

/-- What is known along a path is what is known in the middle of it and the moves from there. -/
lemma scopeBehind_append (g : Graph) (front rest : List Nat) :
    scopeBehind g (front ++ rest) =
      (scopeBehind g front).performAll (movesAlong g front.getLast? rest) := by
  rw [scopeBehind, movesAlong_append, performAll_append, Option.or_none, scopeBehind]

lemma scope_of_along {k : Knowledge} {g : Graph} {path : List Nat} {walk : Walk}
    (h : along k g path = some walk) : walk.scope = scopeBehind g path := by
  rw [(along_eq_some_iff.mp h).2]
  exact scope_foldl_enter k g none path start

end Walk

end WorkflowAudit
