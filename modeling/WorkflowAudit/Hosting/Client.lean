import WorkflowAudit.Hosting.Slug
import WorkflowAudit.Hosting.Target
import WorkflowAudit.Json.Reader
import WorkflowAudit.Source.Basic

/-!
A host of repositories as a source: its answers to requests, read as files, environments and facts
about repositories. What the host doesn't find is absent, and any other failure is an error.
-/

namespace WorkflowAudit.Hosting

open Source (SourceError RepositoryInfo)

structure Request where
  target : String
  /-- The file itself is asked for, not what is known about it. -/
  raw : Bool
  deriving DecidableEq, Repr

inductive Reply where
  | unreachable
  | answer (status : Nat) (body : String)
  deriving DecidableEq, Repr

/-- A host with fixed replies. A reply that asks for another attempt is the same each time. -/
abbrev Server := Request → Reply

namespace Server

def unreachable : Server := fun _ => .unreachable

/-- The statuses of an error, be it the client's or the server's. -/
def isFailure (status : Nat) : Bool := 400 ≤ status && status < 600

def get (s : Server) (r : Request) : Except SourceError (Option String) :=
  match s r with
  | .unreachable => .error .request
  | .answer status body =>
    if status = 404 then .ok none
    else if isFailure status then .error .request
    else .ok (some body)

def getValue {α : Type} (s : Server) (read : Json → Option α) (target : String) :
    Except SourceError (Option α) :=
  match s.get ⟨target, false⟩ with
  | .error e => .error e
  | .ok none => .ok none
  | .ok (some body) =>
    match (Json.read? body).bind read with
    | some value => .ok (some value)
    | none => .error .request

def textField (name : String) (j : Json) : Option String :=
  match j.get? name with
  | some (.text s) => some s
  | _ => none

def readRepository (j : Json) : Option RepositoryInfo :=
  match textField "full_name" j, j.get? "fork", j.get? "default_branch" with
  | some name, fork, branch =>
    let isFork := match fork with
      | none => some false
      | some (.bool b) => some b
      | some _ => none
    let branch := match branch with
      | none | some .null => some none
      | some (.text s) => some (some s)
      | some _ => none
    match isFork, branch with
    | some isFork, some branch => some ⟨name, isFork, branch⟩
    | _, _ => none
  | none, _, _ => none

def readItems {α : Type} (read : Json → Option α) : Json → Option (List α)
  | .array items => items.mapM read
  | _ => none

/-- The name of an environment, and whether it needs the approval of a reviewer. -/
def readEnvironment (j : Json) : Option (String × Bool) :=
  let kinds := match j.get? "protection_rules" with
    | none => some []
    | some rules => readItems (textField "type") rules
  match textField "name" j, kinds with
  | some name, some kinds => some (name, kinds.contains "required_reviewers")
  | _, _ => none

def readEnvironments (j : Json) : Option (List String) :=
  ((j.get? "environments").bind (readItems readEnvironment)).map fun es =>
    (es.filter (·.2)).map (·.1)

structure Entry where
  name : String
  path : String
  deriving DecidableEq, Repr

def readEntry (j : Json) : Option Entry :=
  match textField "name" j, textField "path" j with
  | some name, some path => some ⟨name, path⟩
  | _, _ => none

def withRef (target : String) : Option String → String
  | some ref => target ++ "?ref=" ++ Target.value ref
  | none => target

def repositoryTarget (repo : String) : String := "/repos/" ++ Target.path repo

def contentsTarget (repo path : String) : String :=
  repositoryTarget repo ++ "/contents/" ++ Target.path (Source.plainPath path)

def fetchFile (s : Server) (repo path : String) (ref : Option String) :
    Except SourceError (Option String) :=
  s.get ⟨withRef (contentsTarget repo path) ref, true⟩

def repository (s : Server) (repo : String) : Except SourceError (Option RepositoryInfo) :=
  s.getValue readRepository (repositoryTarget repo)

def environments (s : Server) (repo : String) : Except SourceError (List String) :=
  (s.getValue readEnvironments (repositoryTarget repo ++ "/environments")).map (·.getD [])

def fetchFirst (s : Server) (repo ref : String) : List String → Except SourceError (Option String)
  | [] => .ok none
  | path :: rest =>
    match s.fetchFile repo path (some ref) with
    | .ok none => fetchFirst s repo ref rest
    | answer => answer

/-- The name of an owner and that of a repository, neither empty. -/
def isRepositoryName (repo : String) : Bool :=
  match Text.cutFirst '/' repo with
  | some (owner, name) => !owner.isEmpty && !name.isEmpty && !name.toList.contains '/'
  | none => false

def checked {α : Type} (repo : String) (answer : Except SourceError α) : Except SourceError α :=
  if isRepositoryName repo then answer else .error (.malformedName repo)

def toSource (s : Server) : Source where
  workflow repo path ref := checked repo (s.fetchFile repo path (some ref))
  action repo path ref := checked repo (s.fetchFirst repo ref (Source.actionPaths path))
  environments repo := checked repo (s.environments repo)
  repository repo := checked repo (s.repository repo)

end Server

inductive FetchError where
  | request
  | vanished (file : String) (slug : Slug)
  deriving DecidableEq, Repr

def FetchError.message : FetchError → String
  | .request => SourceError.request.message
  | .vanished file slug =>
    "couldn't fetch file " ++ file ++ " from " ++ slug.display ++
      ": is the branch/tag being modified?"

namespace Server

def isWorkflowEntry (e : Entry) : Bool :=
  Text.endsWith ".yml" e.name || Text.endsWith ".yaml" e.name

def fetchEntries (s : Server) (slug : Slug) :
    List Entry → Except FetchError (List (String × String))
  | [] => .ok []
  | e :: rest =>
    match s.fetchFile slug.name e.path slug.ref with
    | .error _ => .error .request
    | .ok none => .error (.vanished e.path slug)
    | .ok (some text) => (fetchEntries s slug rest).map ((e.path, text) :: ·)

/-- All workflows of a repository, by their paths. A repository without a directory for them has
none. -/
def fetchWorkflows (s : Server) (slug : Slug) : Except FetchError (List (String × String)) :=
  let target := withRef (contentsTarget slug.name ".github/workflows") slug.ref
  match s.getValue (readItems readEntry) target with
  | .error _ => .error .request
  | .ok none => .ok []
  | .ok (some entries) => s.fetchEntries slug (entries.filter isWorkflowEntry)

end Server

end WorkflowAudit.Hosting
