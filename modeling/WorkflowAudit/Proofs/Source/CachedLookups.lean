import Mathlib.Data.List.Basic
import WorkflowAudit.Source.Cache
import WorkflowAudit.Source.Layered

/-! A cache says what its source says. The four tables of a cache are one map from lookups to
answers, and after any calls the map holds what they have recorded and what the source has
answered. -/

namespace WorkflowAudit

open Source

namespace Source

/-- What is asked of a cache. Paths stand as they are spelled. -/
inductive Request where
  | repository (repo : String)
  | environments (repo : String)
  | workflow (repo ref path : String)
  | action (repo ref path : String)

inductive Answer where
  | repository (info : Option RepositoryInfo)
  | environments (names : List String)
  | document (d : Option Document)

inductive Call where
  | ask (r : Request)
  | insertWorkflow (d : Document)

namespace Request

def repo : Request → String
  | .repository repo => repo
  | .environments repo => repo
  | .workflow repo _ _ => repo
  | .action repo _ _ => repo

def lookup : Request → Lookup
  | .repository repo => .repository repo
  | .environments repo => .environments repo
  | .workflow repo ref path => .workflow (.of repo ref path)
  | .action repo ref path => .action (.of repo ref path)

/-- What is said where there is nothing. -/
def absent : Request → Answer
  | .repository _ => .repository none
  | .environments _ => .environments []
  | .workflow _ _ _ => .document none
  | .action _ _ _ => .document none

/-- What a source says itself. -/
def answerOf (s : Source) : Request → Except SourceError Answer
  | .repository repo => (s.repository repo).map .repository
  | .environments repo => (s.environments repo).map .environments
  | .workflow repo ref path => (s.workflow repo (plainPath path) ref).map fun text =>
      .document (text.map fun text => Document.parse text repo ref (plainPath path))
  | .action repo ref path => (s.action repo (plainPath path) ref).map fun text =>
      .document (text.map fun text => Document.parse text repo ref (plainPath path))

/-- What a cache in front of a source says. -/
def answerIn (k : Knowledge) : Request → Answer
  | .repository repo => .repository (k.repository repo)
  | .environments repo => .environments (k.environments repo)
  | .workflow repo ref path => .document (k.workflow (.of repo ref path))
  | .action repo ref path => .document (k.action (.of repo ref path))

end Request

namespace Cache

/-- The cache after a call, what the call returns, and what the source is asked meanwhile. -/
def serve (s : Source) (c : Cache) : Call → Cache × Option Answer × List Query
  | .ask r =>
    let (last, asked) := afterAll s c [r.lookup]
    (last, some (r.answerIn (c.knowledge s)), asked)
  | .insertWorkflow d => (c.insertWorkflow d, none, [])

def serveAll (s : Source) : Cache → List Call → List (Option Answer × List Query)
  | _, [] => []
  | c, call :: rest => (c.serve s call).2 :: serveAll s (c.serve s call).1 rest

end Cache

namespace Layered

/-- What a call returns, and what the remote hears of it. -/
def passOn (l : Layered) (served : Option Answer × List Query) : Option Answer × List Query :=
  (served.1, served.2.filter l.asksRemote)

/-- Calls on one cache in front of the layers, which is empty at first. -/
def serveAll (l : Layered) (calls : List Call) : List (Option Answer × List Query) :=
  (Cache.serveAll l.toSource .empty calls).map l.passOn

end Layered

/-- Repositories about which nothing is known. -/
def blank : Source where
  workflow _ _ _ := .ok none
  action _ _ _ := .ok none
  environments _ := .ok []
  repository repo := .ok (some ⟨repo, false, none⟩)

/-- What is said about a repository where nothing is remembered: what its local files say if it has
any, and what the remote says otherwise. -/
def Layered.uncached (l : Layered) (r : Request) : Except SourceError Answer :=
  r.answerOf (if l.localFiles.holds r.repo then l.localFiles.toSource else l.remote.getD blank)

namespace Call

/-- The call is a request for the same, up to the spelling of a path. -/
def asks (r : Request) : Call → Bool
  | .ask r' => r'.lookup = r.lookup
  | .insertWorkflow _ => false

/-- The workflow that the call records for a request. -/
def recorded? (r : Request) : Call → Option Document
  | .ask _ => none
  | .insertWorkflow d => if r.lookup = .workflow (.of d.repo d.ref d.path) then some d else none

end Call

/-- The workflow recorded last for a request. -/
def recorded (history : List Call) (r : Request) : Option Document :=
  history.reverse.findSome? (·.recorded? r)

/-- What a call returns after others, and what the remote is asked meanwhile: what the remote has
answered before is not asked again, unlike what it has failed to answer. -/
def Layered.outcome (l : Layered) (history : List Call) : Call → Option Answer × List Query
  | .ask r =>
    let known := (recorded history r).isSome || history.any (·.asks r) && (l.uncached r).isOk
    (some (((recorded history r).map (.document ∘ some)).getD (answered r.absent (l.uncached r))),
      if l.remote.isSome && !l.localFiles.holds r.repo && !known then [r.lookup.query] else [])
  | .insertWorkflow _ => (none, [])

/-- How often a source with one answer to a request is asked for it: once if it does answer, and at
every call otherwise, until a workflow is recorded. -/
def timesAsked (answer : Except SourceError Answer) (calls : List Call) (r : Request) : Nat :=
  let asked := (calls.takeWhile fun call => (call.recorded? r).isNone).countP (·.asks r)
  if answer.isOk then min 1 asked else asked

namespace Cache

variable {s : Source} {c : Cache} {l l' : Lookup} {history calls : List Call}

/-- The tables as one map. -/
def stored (c : Cache) : Lookup → Option Answer
  | .repository repo => (c.repositories.lookup repo).map .repository
  | .environments repo => (c.environments.lookup repo).map .environments
  | .workflow key => (c.workflows.lookup key).map .document
  | .action key => (c.actions.lookup key).map .document

/-- What a source says at a lookup. -/
def reply (s : Source) : Lookup → Except SourceError Answer
  | .repository repo => (s.repository repo).map .repository
  | .environments repo => (s.environments repo).map .environments
  | .workflow key => (askWorkflow s key).map .document
  | .action key => (askAction s key).map .document

lemma exists_of_map_eq_ok {ε α β : Type} {f : α → β} {x : Except ε α} {b : β}
    (h : x.map f = .ok b) : ∃ a, x = .ok a ∧ f a = b := by
  cases x with
  | error e => cases h
  | ok a => exact ⟨a, rfl, Except.ok.inj h⟩

lemma isSome_stored (c : Cache) (l : Lookup) : (c.stored l).isSome = c.holds l := by
  cases l <;> simp [stored, holds]

lemma stored_empty (l : Lookup) : Cache.empty.stored l = none := by
  cases l <;> rfl

lemma holds_empty (l : Lookup) : Cache.empty.holds l = false := by
  cases l <;> rfl

lemma map_lookup_cons {κ α : Type} [DecidableEq κ] (f : α → Answer) (table : List (κ × α))
    (k k' : κ) (a : α) :
    (((k, a) :: table).lookup k').map f =
      if k' = k then some (f a) else (table.lookup k').map f := by
  split
  · next h => rw [h, List.lookup_cons_self, Option.map_some]
  · next h => rw [List.lookup_cons, beq_false_of_ne h]

lemma stored_insertWorkflow (c : Cache) (d : Document) (l : Lookup) :
    (c.insertWorkflow d).stored l =
      if l = .workflow (.of d.repo d.ref d.path) then some (.document (some d))
      else c.stored l := by
  cases l <;> simp [stored, insertWorkflow, map_lookup_cons]

lemma remember_of_error {e : SourceError} (h : reply s l = .error e) : c.remember s l = c := by
  cases l with
  | repository repo => cases hs : s.repository repo <;> simp_all [reply, remember, Except.map]
  | environments repo => cases hs : s.environments repo <;> simp_all [reply, remember, Except.map]
  | workflow key => cases hs : askWorkflow s key <;> simp_all [reply, remember, Except.map]
  | action key => cases hs : askAction s key <;> simp_all [reply, remember, Except.map]

lemma stored_remember_of_ok {a : Answer} (h : reply s l = .ok a) (l' : Lookup) :
    (c.remember s l).stored l' = if l' = l then some a else c.stored l' := by
  cases l with
  | repository repo =>
    obtain ⟨info, hs, rfl⟩ := exists_of_map_eq_ok h
    cases l' <;> simp [remember, stored, hs, map_lookup_cons]
  | environments repo =>
    obtain ⟨names, hs, rfl⟩ := exists_of_map_eq_ok h
    cases l' <;> simp [remember, stored, hs, map_lookup_cons]
  | workflow key =>
    obtain ⟨d, hs, rfl⟩ := exists_of_map_eq_ok h
    cases l' <;> simp [remember, stored, hs, map_lookup_cons]
  | action key =>
    obtain ⟨d, hs, rfl⟩ := exists_of_map_eq_ok h
    cases l' <;> simp [remember, stored, hs, map_lookup_cons]

/-- A lookup leaves behind what was there, or else what the source says. -/
lemma stored_after (s : Source) (c : Cache) (l l' : Lookup) :
    (c.after s l).stored l' =
      if l' = l then (c.stored l).or (reply s l).toOption else c.stored l' := by
  rw [after, ← isSome_stored]
  cases hc : c.stored l with
  | some a =>
    rw [Option.isSome_some, if_pos rfl, Option.some_or]
    split
    · next h => rw [h, hc]
    · rfl
  | none =>
    rw [Option.isSome_none, if_neg Bool.false_ne_true, Option.none_or]
    cases hr : reply s l with
    | error e =>
      rw [remember_of_error hr]
      split
      · next h => rw [h, hc, Except.toOption]
      · rfl
    | ok a => rw [stored_remember_of_ok hr, Except.toOption]

lemma reply_lookup (s : Source) (r : Request) : reply s r.lookup = r.answerOf s := by
  cases r with
  | repository _ | environments _ => rfl
  | workflow repo ref path =>
    rw [Request.lookup, reply, askWorkflow, Request.answerOf, DocumentKey.of]
    cases s.workflow repo (plainPath path) ref <;> rfl
  | action repo ref path =>
    rw [Request.lookup, reply, askAction, Request.answerOf, DocumentKey.of]
    cases s.action repo (plainPath path) ref <;> rfl

lemma answered_map {α β : Type} (f : α → β) (absent : α) (x : Except SourceError α) :
    answered (f absent) (x.map f) = f (answered absent x) := by
  cases x <;> rfl

lemma answerIn_knowledge (s : Source) (c : Cache) (r : Request) :
    r.answerIn (c.knowledge s) =
      (c.stored r.lookup).getD (answered r.absent (r.answerOf s)) := by
  rw [← reply_lookup]
  cases r <;>
    simp only [Request.answerIn, Request.lookup, Request.absent, knowledge, stored, reply,
      answered_map, Option.getD_map]

lemma recorded_append_singleton (history : List Call) (call : Call) (r : Request) :
    recorded (history ++ [call]) r = (call.recorded? r).or (recorded history r) := by
  rw [recorded, List.reverse_append, List.reverse_singleton, List.singleton_append,
    List.findSome?_cons, recorded]
  cases call.recorded? r <;> rfl

/-- The cache holds what the calls so far have recorded, and what the source has said at them. -/
def Tracks (s : Source) (history : List Call) (c : Cache) : Prop :=
  ∀ r : Request, c.stored r.lookup =
    ((recorded history r).map (.document ∘ some)).or
      (if history.any (·.asks r) then (r.answerOf s).toOption else none)

lemma tracks_empty (s : Source) : Tracks s [] .empty := by
  intro r
  rw [stored_empty]
  rfl

lemma serve_ask (s : Source) (c : Cache) (r : Request) :
    c.serve s (.ask r) = (c.after s r.lookup, some (r.answerIn (c.knowledge s)),
      if c.holds r.lookup then [] else [r.lookup.query]) := by
  simp [serve, afterAll]

lemma stored_serve (s : Source) (c : Cache) (call : Call) (r : Request) :
    (c.serve s call).1.stored r.lookup =
      ((call.recorded? r).map (.document ∘ some)).or ((c.stored r.lookup).or
        (if call.asks r then (r.answerOf s).toOption else none)) := by
  cases call with
  | ask r' =>
    rw [serve_ask, stored_after, Call.recorded?, Option.map_none, Option.none_or, Call.asks]
    by_cases hr : r.lookup = r'.lookup
    · rw [if_pos hr, ← hr, reply_lookup, if_pos (decide_eq_true rfl)]
    · rw [if_neg hr, decide_eq_false (Ne.symm hr), if_neg Bool.false_ne_true, Option.or_none]
  | insertWorkflow d =>
    rw [serve, stored_insertWorkflow, Call.recorded?, Call.asks, if_neg Bool.false_ne_true,
      Option.or_none]
    split <;> rfl

lemma Tracks.serve (h : Tracks s history c) (call : Call) :
    Tracks s (history ++ [call]) (c.serve s call).1 := by
  intro r
  rw [stored_serve, h r, recorded_append_singleton, List.any_append, List.any_cons, List.any_nil,
    Bool.or_false, Option.map_or, Option.or_assoc, Option.or_assoc]
  -- What the source says now it has said at every earlier request.
  cases history.any (·.asks r) <;> cases call.asks r <;> simp

lemma Tracks.holds_eq (h : Tracks s history c) (r : Request) :
    c.holds r.lookup =
      ((recorded history r).isSome || history.any (·.asks r) && (r.answerOf s).isOk) := by
  rw [← isSome_stored, h r, Option.isSome_or, Option.isSome_map]
  cases history.any (·.asks r) <;> cases r.answerOf s <;> rfl

lemma Tracks.answerIn_eq (h : Tracks s history c) (r : Request) :
    r.answerIn (c.knowledge s) =
      ((recorded history r).map (.document ∘ some)).getD (answered r.absent (r.answerOf s)) := by
  rw [answerIn_knowledge, h r]
  cases recorded history r with
  | some d => rfl
  | none => cases history.any (·.asks r) <;> cases r.answerOf s <;> rfl

lemma query_inj : l.query = l'.query ↔ l = l' := by
  rcases l with repo | repo | ⟨repo, ref, path⟩ | ⟨repo, ref, path⟩ <;>
    rcases l' with repo' | repo' | ⟨repo', ref', path'⟩ | ⟨repo', ref', path'⟩ <;>
    simp [Lookup.query, and_comm]

lemma holds_serve (s : Source) (c : Cache) (call : Call) (r : Request) :
    (c.serve s call).1.holds r.lookup =
      ((call.recorded? r).isSome || c.holds r.lookup || call.asks r && (r.answerOf s).isOk) := by
  rw [← isSome_stored, ← isSome_stored, stored_serve, Option.isSome_or, Option.isSome_or,
    Option.isSome_map, Bool.or_assoc]
  cases call.asks r <;> cases r.answerOf s <;> rfl

lemma count_serve (s : Source) (c : Cache) (call : Call) (r : Request) :
    (c.serve s call).2.2.count r.lookup.query =
      if call.asks r && !c.holds r.lookup then 1 else 0 := by
  cases call with
  | insertWorkflow d => rfl
  | ask r' =>
    rw [serve_ask, Call.asks]
    by_cases hr : r'.lookup = r.lookup
    · rw [hr]
      cases c.holds r.lookup <;> simp
    · have hquery : r'.lookup.query ≠ r.lookup.query := query_inj.not.mpr hr
      cases c.holds r'.lookup <;> simp [hr, hquery]

lemma timesAsked_cons (answer : Except SourceError Answer) (call : Call) (r : Request) :
    timesAsked answer (call :: calls) r =
      if (call.recorded? r).isSome then 0
      else if call.asks r then (if answer.isOk then 1 else timesAsked answer calls r + 1)
      else timesAsked answer calls r := by
  cases hrec : call.recorded? r with
  | some d => simp [timesAsked, hrec]
  | none =>
    have hkept : (call :: calls).takeWhile (fun call => (call.recorded? r).isNone) =
        call :: calls.takeWhile fun call => (call.recorded? r).isNone :=
      List.takeWhile_cons_of_pos (by rw [hrec, Option.isNone_none])
    rw [timesAsked, hkept, List.countP_cons, timesAsked, Option.isSome_none]
    cases call.asks r <;> cases answer.isOk <;> simp

lemma count_serveAll (s : Source) (c : Cache) (calls : List Call) (r : Request) :
    ((serveAll s c calls).flatMap (·.2)).count r.lookup.query =
      if c.holds r.lookup then 0 else timesAsked (r.answerOf s) calls r := by
  induction calls generalizing c with
  | nil => simp [serveAll, timesAsked]
  | cons call rest ih =>
    rw [serveAll, List.flatMap_cons, List.count_append, count_serve, ih, holds_serve,
      timesAsked_cons]
    cases call with
    | insertWorkflow d =>
      rw [Call.asks]
      cases c.holds r.lookup <;> cases (Call.insertWorkflow d).recorded? r <;> simp
    | ask r' =>
      rw [Call.recorded?]
      cases c.holds r.lookup <;> cases (Call.ask r').asks r <;> cases (r.answerOf s).isOk <;>
        simp [Nat.add_comm]

end Cache

namespace Layered

variable {l : Layered} {c : Cache} {history calls : List Call}

lemma answerOf_toSource (l : Layered) (r : Request) : r.answerOf l.toSource = l.uncached r := by
  rw [uncached]
  cases hl : l.localFiles.holds r.repo with
  | true => cases r <;> simp_all [Request.answerOf, toSource, pick, Request.repo]
  | false =>
    cases hr : l.remote with
    | none =>
      cases r <;>
        simp_all [Request.answerOf, toSource, pick, Request.repo, blank, LocalFiles.toSource]
    | some s => cases r <;> simp_all [Request.answerOf, toSource, pick, Request.repo]

lemma asksRemote_query (l : Layered) (r : Request) :
    l.asksRemote r.lookup.query = (l.remote.isSome && !l.localFiles.holds r.repo) := by
  cases r <;> rfl

lemma passOn_serve (h : c.Tracks l.toSource history) (call : Call) :
    l.passOn (c.serve l.toSource call).2 = l.outcome history call := by
  cases call with
  | insertWorkflow d => rfl
  | ask r =>
    rw [Cache.serve_ask, passOn, outcome, h.answerIn_eq, h.holds_eq, answerOf_toSource,
      ← asksRemote_query]
    cases (recorded history r).isSome || history.any (·.asks r) && (l.uncached r).isOk <;>
      cases hq : l.asksRemote r.lookup.query <;> simp [hq]

lemma getElem?_serveAll (h : c.Tracks l.toSource history) (i : Nat) :
    ((Cache.serveAll l.toSource c calls).map l.passOn)[i]? =
      calls[i]?.map (l.outcome (history ++ calls.take i)) := by
  induction calls generalizing c history i with
  | nil => rfl
  | cons call rest ih =>
    rw [Cache.serveAll, List.map_cons, passOn_serve h]
    cases i with
    | zero => simp
    | succ i => simpa using ih (h.serve call) i

lemma flatMap_passOn (l : Layered) (served : List (Option Answer × List Query)) :
    (served.map l.passOn).flatMap (·.2) = (served.flatMap (·.2)).filter l.asksRemote := by
  rw [List.flatMap_map, List.filter_flatMap]
  rfl

theorem cache_transparent (l : Layered) (calls : List Call) :
    (∀ r : Request, r.answerOf l.toSource = l.uncached r) ∧
      (∀ i : Nat, (l.serveAll calls)[i]? = calls[i]?.map (l.outcome (calls.take i))) ∧
        ∀ r : Request, ((l.serveAll calls).flatMap (·.2)).count r.lookup.query =
          if l.remote.isSome && !l.localFiles.holds r.repo then
            timesAsked (l.uncached r) calls r
          else 0 := by
  refine ⟨l.answerOf_toSource, fun i => ?_, fun r => ?_⟩
  · simpa [serveAll] using getElem?_serveAll (Cache.tracks_empty l.toSource) i
  · rw [serveAll, flatMap_passOn, ← asksRemote_query]
    split
    · next hq =>
      rw [List.count_filter hq, Cache.count_serveAll, answerOf_toSource, Cache.holds_empty]
      rfl
    · next hq => exact List.count_eq_zero.mpr fun h => hq (List.mem_filter.mp h).2

def unreachable : Source where
  workflow _ _ _ := .error .request
  action _ _ _ := .error .request
  environments _ := .error .request
  repository _ := .error .request

example : (Layered.mk .empty (some unreachable)).serveAll
    [.ask (.environments "o/r"), .ask (.environments "o/r")] =
      [(some (.environments []), [.environments "o/r"]),
        (some (.environments []), [.environments "o/r"])] := by rfl

example : (Layered.mk .empty (some blank)).serveAll
    [.ask (.workflow "o/r" "main" "./ci.yml"), .ask (.workflow "o/r" "main" "ci.yml")] =
      [(some (.document none), [.workflow "o/r" "ci.yml" "main"]),
        (some (.document none), [])] := by rfl

end Layered

end Source

end WorkflowAudit
