import WorkflowAudit.Document.Reader
import WorkflowAudit.Files.Ignore
import WorkflowAudit.Hosting.Slug
import WorkflowAudit.Source.Layered

/-!
What there is to audit: workflows in local files and directories, and remote repositories. An input
that is neither a file nor a directory names a repository.
-/

namespace WorkflowAudit

def localRef : String := "HEAD"

structure Inputs where
  workflows : List Document
  localFiles : Source.LocalFiles
  remote : List Hosting.Slug

inductive InputError where
  | slug (e : Hosting.SlugError)
  | invalid (input : String)
  | unreadable
  | nothing
  deriving DecidableEq, Repr

namespace InputError

def nothingDiagnostic : Report.Diagnostic :=
  ⟨.error, none, "no workflows collected",
    ["pass a workflow file, a repository checkout, or owner/repo[@ref]"]⟩

def message : InputError → String
  | slug e => e.diagnostic.render
  | invalid input => "invalid input: " ++ input
  | unreadable => "stream did not contain valid UTF-8"
  | nothing => nothingDiagnostic.render

end InputError

namespace Inputs

def empty : Inputs := ⟨[], .empty, []⟩

def isEmpty (i : Inputs) : Bool := i.workflows.isEmpty && i.remote.isEmpty

def workflowsDirectory : List String := [".github", "workflows"]

def isYaml (extension : Option String) : Bool := extension = some "yml" || extension = some "yaml"

def liesInWorkflows (directory : List String) : Bool := workflowsDirectory.isSuffixOf directory

/-- The name of a repository: a given one, or that of its directory. -/
def repositoryName (given : Option String) (directory : List String) : String :=
  given.getD ("local/" ++ directory.getLast?.getD "root")

def addAction (repo path text : String) (i : Inputs) : Inputs :=
  { i with localFiles := i.localFiles.insert repo path text }

def addWorkflow (repo path text : String) (i : Inputs) : Inputs :=
  { i with
    localFiles := i.localFiles.insert repo path text
    workflows := i.workflows ++ [Document.parse text repo localRef path] }

/-- The names that lead to the root of the checkout of a file, and the path of the file from there.
-/
def splitFile (names : List String) : List String × String :=
  let directory := names.dropLast
  let name := names.getLast?.getD ""
  if liesInWorkflows directory then
    (directory.take (directory.length - 2), Text.join "/" (workflowsDirectory ++ [name]))
  else (directory, name)

def addFile (t : FileTree) (given : Option String) (input : String) (contents : ByteArray)
    (i : Inputs) : Except InputError Inputs :=
  let names := Files.names input
  let (root, path) := splitFile names
  let repo := repositoryName given ((t.placeOf input root).getD [])
  match String.fromUTF8? contents with
  | none => .error .unreadable
  | some text =>
    match Files.stemAndExtension (names.getLast?.getD "") with
    | (stem, extension) =>
      if !isYaml extension then .error (.invalid input)
      else if stem = "action" then .ok (i.addAction repo path text)
      else .ok (i.addWorkflow repo path text)

/-- A file below a directory, by its names from there, if it is a workflow or an action. -/
def addBelow (repo : String) (directory : List String) (below : List String) (contents : ByteArray)
    (i : Inputs) : Except InputError Inputs :=
  let name := below.getLast?.getD ""
  let isWorkflow := isYaml (Files.stemAndExtension name).2 &&
    liesInWorkflows (directory ++ below.dropLast)
  let isAction := name = "action.yml" || name = "action.yaml"
  if isWorkflow || isAction then
    match String.fromUTF8? contents with
    | none => .error .unreadable
    | some text =>
      let path := Text.join "/" below
      .ok (if isWorkflow then i.addWorkflow repo path text else i.addAction repo path text)
  else .ok i

def addDirectory (t : FileTree) (given : Option String) (input : String) (place : List String)
    (i : Inputs) : Except InputError Inputs :=
  let repo := repositoryName given place
  let found := (t.below place).filter fun f => !Files.isLeftOut t place f.1
  found.foldlM (fun i f => i.addBelow repo (Files.names input) f.1 f.2) i

def addInput (t : FileTree) (given : Option String) (i : Inputs) (input : String) :
    Except InputError Inputs :=
  match t.fileAt? input with
  | some contents => i.addFile t given input contents
  | none =>
    match t.directoryAt? input with
    | some place => i.addDirectory t given input place
    | none =>
      match Hosting.Slug.parse input with
      | .ok slug => .ok { i with remote := i.remote ++ [slug] }
      | .error e => .error (.slug e)

def collect (t : FileTree) (given : Option String) (inputs : List String) :
    Except InputError Inputs :=
  match inputs.foldlM (addInput t given) empty with
  | .error e => .error e
  | .ok i => if i.isEmpty then .error .nothing else .ok i

end Inputs

end WorkflowAudit
