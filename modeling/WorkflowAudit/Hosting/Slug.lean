import WorkflowAudit.Report.Diagnostic

/-!
Slugs `owner/repo[@ref]` of hosted repositories.
-/

namespace WorkflowAudit.Hosting

structure Slug where
  owner : String
  repo : String
  ref : Option String
  deriving DecidableEq, Repr

inductive SlugError where
  | tooManyParts (s : String)
  | tooShort (s : String)
  deriving DecidableEq, Repr

def SlugError.diagnostic : SlugError → Report.Diagnostic
  | tooManyParts s =>
    ⟨.error, none, "invalid repo slug `" ++ s ++ "` (too many parts)",
      ["pass owner/repo or owner/repo@ref"]⟩
  | tooShort s =>
    ⟨.error, none, "invalid repo slug `" ++ s ++ "` (too short)",
      ["pass owner/repo or owner/repo@ref"]⟩

namespace Slug

def name (s : Slug) : String := s.owner ++ "/" ++ s.repo

def display (s : Slug) : String :=
  match s.ref with
  | some r => s.name ++ "@" ++ r
  | none => s.name

/-- The reference follows the last at sign, and an empty one is none. -/
def parse (s : String) : Except SlugError Slug :=
  let (path, ref) := match Text.cutLastChars '@' s.toList with
    | some (path, ref) => (path, if ref.isEmpty then none else some (String.ofList ref))
    | none => (s.toList, none)
  match Text.cutFirstChars '/' path with
  | none => .error (.tooShort s)
  | some (owner, repo) =>
    if repo.contains '/' then .error (.tooManyParts s)
    else if owner.isEmpty || repo.isEmpty then .error (.tooShort s)
    else .ok ⟨String.ofList owner, String.ofList repo, ref⟩

end Slug

end WorkflowAudit.Hosting
