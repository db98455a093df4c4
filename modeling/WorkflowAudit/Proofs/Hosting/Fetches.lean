import Mathlib.Data.List.Forall2
import WorkflowAudit.Hosting.Client
import WorkflowAudit.Proofs.Text.Parts

/-! What a host answers for the workflows of a repository. The directory is listed and each workflow
file in it is fetched; the outcome is told from the replies to these requests alone, and it is either
all of the files or an error. -/

namespace WorkflowAudit

/-- Reading a list succeeds when each element is read. -/
lemma mapM_eq_some_iff {α β : Type} {f : α → Option β} {as : List α} {bs : List β} :
    as.mapM f = some bs ↔ List.Forall₂ (fun a b => f a = some b) as bs := by
  induction as generalizing bs with
  | nil => simp [eq_comm]
  | cons a as ih =>
    rw [List.mapM_cons, List.forall₂_cons_left_iff]
    simp only [Option.bind_eq_bind, Option.bind_eq_some_iff, ih, Option.pure_def, Option.some.injEq]
    constructor
    · rintro ⟨b, hb, bs, hbs, rfl⟩
      exact ⟨b, bs, hb, hbs, rfl⟩
    · rintro ⟨b, bs, hb, hbs, rfl⟩
      exact ⟨b, hb, bs, hbs, rfl⟩

namespace Hosting

/-! ### Replies -/

namespace Reply

def IsMissing (r : Reply) : Prop := ∃ body, r = .answer 404 body

/-- The body of a reply that does not fail. -/
def body? : Reply → Option String
  | .answer status body => if Server.isFailure status then none else some body
  | .unreachable => none

end Reply

namespace Server

variable {s : Server} {slug : Slug} {entries rest : List Entry} {e : Entry}
  {files : List (String × String)} {error : FetchError}

def listingRequest (slug : Slug) : Request :=
  ⟨withRef (contentsTarget slug.name ".github/workflows") slug.ref, false⟩

def Entry.IsGivenBy (e : Entry) (j : Json) : Prop :=
  j.get? "name" = some (.text e.name) ∧ j.get? "path" = some (.text e.path)

/-- The host lists the entries of the directory of workflows, in this order. -/
def Lists (s : Server) (slug : Slug) (entries : List Entry) : Prop :=
  ∃ body items, (s (listingRequest slug)).body? = some body ∧
    Json.read? body = some (.array items) ∧ List.Forall₂ (fun j e => e.IsGivenBy j) items entries

lemma textField_eq_some_iff {name text : String} {j : Json} :
    textField name j = some text ↔ j.get? name = some (.text text) := by
  rw [textField]
  split
  · next found hfound => simp [hfound]
  · next hother => exact iff_of_false (by simp) (hother text)

lemma readEntry_eq_some_iff {j : Json} : readEntry j = some e ↔ e.IsGivenBy j := by
  rw [Entry.IsGivenBy, ← textField_eq_some_iff, ← textField_eq_some_iff, readEntry]
  obtain ⟨name, path⟩ := e
  cases textField "name" j <;> cases textField "path" j <;> simp

lemma readItems_eq_some_iff {j : Json} : readItems readEntry j = some entries ↔
    ∃ items, j = .array items ∧ List.Forall₂ (fun j e => e.IsGivenBy j) items entries := by
  cases j with
  | array items => simp [readItems, mapM_eq_some_iff, readEntry_eq_some_iff]
  | _ => simp [readItems]

lemma lists_iff : s.Lists slug entries ↔ ∃ body, (s (listingRequest slug)).body? = some body ∧
    (Json.read? body).bind (readItems readEntry) = some entries := by
  simp only [Lists, Option.bind_eq_some_iff, readItems_eq_some_iff]
  constructor
  · rintro ⟨body, items, hbody, hread, hitems⟩
    exact ⟨body, hbody, _, hread, items, rfl, hitems⟩
  · rintro ⟨body, hbody, _, hread, items, rfl, hitems⟩
    exact ⟨body, items, hbody, hread, hitems⟩

lemma Lists.exists_iff (h : s.Lists slug entries) {p : List Entry → Prop} :
    (∃ entries, s.Lists slug entries ∧ p entries) ↔ p entries := by
  refine ⟨?_, fun hp => ⟨entries, h, hp⟩⟩
  rintro ⟨entries', h', hp⟩
  obtain ⟨body, hbody, hread⟩ := lists_iff.mp h
  obtain ⟨body', hbody', hread'⟩ := lists_iff.mp h'
  obtain rfl : body = body' := Option.some.inj (hbody.symm.trans hbody')
  obtain rfl : entries = entries' := Option.some.inj (hread.symm.trans hread')
  exact hp

/-- A file is asked for by its path, at the reference of the slug. -/
def fileRequest (slug : Slug) (path : String) : Request :=
  ⟨withRef (contentsTarget slug.name path) slug.ref, true⟩

/-- The reply to the request for the file of an entry is no success, and of this kind. -/
inductive Withholds (s : Server) (slug : Slug) (e : Entry) : FetchError → Prop
  | vanished : (s (fileRequest slug e.path)).IsMissing → Withholds s slug e (.vanished e.path slug)
  | failed : ¬ (s (fileRequest slug e.path)).IsMissing → (s (fileRequest slug e.path)).body? = none →
      Withholds s slug e .request

lemma Withholds.unique {error' : FetchError} (h : s.Withholds slug e error)
    (h' : s.Withholds slug e error') : error = error' := by
  cases h <;> cases h' <;> first | rfl | contradiction

/-- The first file is there, but nothing of it is left when the second is gone. -/
example :
    let listing := "[\x7b\"name\":\"a.yml\",\"path\":\"a.yml\"\x7d," ++
      "\x7b\"name\":\"b.yaml\",\"path\":\"b.yaml\"\x7d]"
    let s : Server := fun r =>
      if r = ⟨"/repos/o/r/contents/.github/workflows?ref=v1", false⟩ then .answer 200 listing
      else if r = ⟨"/repos/o/r/contents/a.yml?ref=v1", true⟩ then .answer 200 "on: push"
      else .answer 404 ""
    s.fetchWorkflows ⟨"o", "r", some "v1"⟩ = .error (.vanished "b.yaml" ⟨"o", "r", some "v1"⟩) := by
  decide +kernel

end Server

end Hosting

end WorkflowAudit
