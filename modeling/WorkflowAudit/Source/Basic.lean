import WorkflowAudit.Text.Basic

/-!
Where workflows, actions and facts about repositories come from. What is absent is no error: errors
are kept for sources that can't be asked.
-/

namespace WorkflowAudit.Source

structure RepositoryInfo where
  fullName : String
  isFork : Bool
  defaultBranch : Option String
  deriving DecidableEq, Repr

inductive SourceError where
  /-- The name of a repository is not that of an owner and a repository. -/
  | malformedName (repo : String)
  | request
  deriving DecidableEq, Repr

def SourceError.message : SourceError → String
  | .malformedName repo => "malformed repository name: " ++ repo
  | .request => "request error while accessing GitHub API"

inductive Query where
  | workflow (repo path ref : String)
  | action (repo path ref : String)
  | environments (repo : String)
  | repository (repo : String)
  deriving DecidableEq, Repr

def Query.repo : Query → String
  | .workflow repo _ _ => repo
  | .action repo _ _ => repo
  | .environments repo => repo
  | .repository repo => repo

/-- The path without any `./` in front. -/
def plainChars : List Char → List Char
  | '.' :: '/' :: rest => plainChars rest
  | cs => cs

def plainPath (path : String) : String := String.ofList (plainChars path.toList)

def trimSlashes (path : String) : String :=
  let front := path.toList.dropWhile (· = '/')
  String.ofList (front.reverse.dropWhile (· = '/')).reverse

/-- The files that may define the action in a directory, in the order in which they are tried. -/
def actionPaths (directory : String) : List String :=
  let directory := trimSlashes directory
  let front := if directory.isEmpty then "" else directory ++ "/"
  [front ++ "action.yml", front ++ "action.yaml"]

end WorkflowAudit.Source

namespace WorkflowAudit

open Source in
structure Source where
  workflow : (repo path ref : String) → Except SourceError (Option String)
  action : (repo path ref : String) → Except SourceError (Option String)
  environments : (repo : String) → Except SourceError (List String)
  repository : (repo : String) → Except SourceError (Option RepositoryInfo)

end WorkflowAudit
