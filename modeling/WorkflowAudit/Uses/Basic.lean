import WorkflowAudit.Text.Basic

/-!
The clauses by which a job or a step uses code from elsewhere: a path of the same repository, an
action or workflow of a repository, or a container image.
-/

namespace WorkflowAudit

structure RepositoryUses where
  owner : String
  repo : String
  subpath : Option String
  ref : Option String
  deriving DecidableEq, Repr

inductive Uses where
  | localPath (path : String)
  | repository (uses : RepositoryUses)
  | docker (image : String)
  deriving DecidableEq, Repr

structure UsesError where
  clause : String
  deriving DecidableEq, Repr

def UsesError.message (e : UsesError) : String := "malformed `uses:` clause: " ++ e.clause

namespace RepositoryUses

def slug (u : RepositoryUses) : String := u.owner ++ "/" ++ u.repo

def display (u : RepositoryUses) : String :=
  u.slug ++ (match u.subpath with | some p => "/" ++ p | none => "") ++
    (match u.ref with | some r => "@" ++ r | none => "")

def trimSlashes (cs : List Char) : List Char :=
  ((cs.dropWhile (· = '/')).reverse.dropWhile (· = '/')).reverse

/-- The path of a clause, and the reference behind its last at sign. -/
def cutRef (cs : List Char) : List Char × Option (List Char) :=
  match Text.cutLastChars '@' cs with
  | some (path, ref) => (path, some ref)
  | none => (cs, none)

/-- What follows the owner: the repository, and a subpath behind the next slash. -/
def cutSubpath (cs : List Char) : List Char × List Char :=
  match Text.cutFirstChars '/' cs with
  | some (repo, subpath) => (repo, trimSlashes subpath)
  | none => (cs, [])

/-- Cuts the reference off at the last at sign, then owner and repository at the first two slashes.
-/
def ofChars? (cs : List Char) : Option RepositoryUses :=
  let (path, ref) := cutRef cs
  match Text.cutFirstChars '/' path with
  | none => none
  | some (owner, rest) =>
    let (repo, subpath) := cutSubpath rest
    if owner.isEmpty || repo.isEmpty then none
    else some
      { owner := String.ofList owner, repo := String.ofList repo
        subpath := if subpath.isEmpty then none else some (String.ofList subpath)
        ref := ref.map String.ofList }

def parse (s : String) : Except UsesError RepositoryUses :=
  match ofChars? s.toList with
  | some u => .ok u
  | none => .error ⟨s⟩

end RepositoryUses

namespace Uses

def parse (s : String) : Except UsesError Uses :=
  let s := Text.trim s
  match Text.dropFront "./" s with
  | some path => .ok (.localPath (String.ofList (path.toList.reverse.dropWhile (· = '/')).reverse))
  | none =>
    match Text.dropFront "docker://" s with
    | some image => .ok (.docker image)
    | none =>
      match RepositoryUses.parse s with
      | .ok u => .ok (.repository u)
      | .error e => .error e

def parse? (s : String) : Option Uses := (parse s).toOption

end Uses

end WorkflowAudit
