import WorkflowAudit.Text.Word
import WorkflowAudit.Uses.Basic

/-!
Patterns of repository clauses. Owner and repository are compared without regard to case, subpath
and reference exactly.
-/

namespace WorkflowAudit

inductive UsesPattern where
  | exactWithRef (owner repo : String) (subpath : Option String) (ref : String)
  | exactPath (owner repo subpath : String)
  | exactRepo (owner repo : String)
  | inRepo (owner repo : String)
  | inOwner (owner : String)
  | any
  deriving DecidableEq, Repr

structure PatternError where
  pattern : String
  deriving DecidableEq, Repr

def PatternError.message (e : PatternError) : String := "invalid pattern: " ++ e.pattern

namespace UsesPattern

def sameRepo (u : RepositoryUses) (owner repo : String) : Bool :=
  Text.sameIgnoringCase u.owner owner && Text.sameIgnoringCase u.repo repo

def accepts (u : RepositoryUses) : UsesPattern → Bool
  | exactWithRef owner repo subpath ref =>
    sameRepo u owner repo && u.subpath == subpath && u.ref == some ref
  | exactPath owner repo subpath => sameRepo u owner repo && u.subpath == some subpath
  | exactRepo owner repo => sameRepo u owner repo && u.subpath.isNone
  | inRepo owner repo => sameRepo u owner repo
  | inOwner owner => Text.sameIgnoringCase u.owner owner
  | any => true

structure Parts where
  owner : List Char
  repo : List Char
  subpath : Option (List Char)
  ref : Option (List Char)

def refPart (cs : List Char) : Option (Option (List Char)) :=
  match cs with
  | [] => some none
  | '@' :: ref =>
    if !ref.isEmpty && ref.all fun c => c ≠ '*' && !Text.isBlank c then some (some ref) else none
  | _ => none

def isSubpathChar (c : Char) : Bool := c ≠ '@' && c ≠ '*' && !Text.isBlank c

def parts? (cs : List Char) : Option Parts :=
  let isOwnerChar (c : Char) := Text.isWordChar c || c = '-'
  let isRepoChar (c : Char) := Text.isWordChar c || c = '-' || c = '.'
  let owner := cs.takeWhile isOwnerChar
  if owner.isEmpty then none
  else match cs.dropWhile isOwnerChar with
    | '/' :: rest =>
      let (repo, rest) := match rest with
        | '*' :: rest => (['*'], rest)
        | rest => (rest.takeWhile isRepoChar, rest.dropWhile isRepoChar)
      if repo.isEmpty then none
      else match rest with
        | '/' :: '*' :: rest => (refPart rest).map fun ref => ⟨owner, repo, some ['*'], ref⟩
        | '/' :: rest =>
          let subpath := rest.takeWhile isSubpathChar
          if subpath.isEmpty then none
          else
            (refPart (rest.dropWhile isSubpathChar)).map fun ref =>
              ⟨owner, repo, some subpath, ref⟩
        | rest => (refPart rest).map fun ref => ⟨owner, repo, none, ref⟩
    | _ => none

/-- A star may stand for a repository or a subpath, but not before anything further. -/
def ofParts? (p : Parts) : Option UsesPattern :=
  let owner := String.ofList p.owner
  let repo := String.ofList p.repo
  match p.repo == ['*'], p.subpath, p.ref with
  | true, none, none => some (.inOwner owner)
  | true, _, _ => none
  | false, none, none => some (.exactRepo owner repo)
  | false, some ['*'], none => some (.inRepo owner repo)
  | false, some ['*'], some _ => none
  | false, some subpath, none => some (.exactPath owner repo (String.ofList subpath))
  | false, subpath, some ref =>
    some (.exactWithRef owner repo (subpath.map String.ofList) (String.ofList ref))

def parse (s : String) : Except PatternError UsesPattern :=
  if s = "*" then .ok .any
  else match (parts? s.toList).bind ofParts? with
    | some p => .ok p
    | none => .error ⟨s⟩

def parse? (s : String) : Option UsesPattern := (parse s).toOption

def acceptedByAny (patterns : List UsesPattern) (u : RepositoryUses) : Bool :=
  patterns.any (·.accepts u)

end UsesPattern

end WorkflowAudit
