import WorkflowAudit.Source.Basic

/-!
Files of local repositories as a source, and in front of a remote one. A repository with local
files is answered by them alone, whatever the reference.
-/

namespace WorkflowAudit.Source

structure LocalFile where
  repo : String
  path : String
  text : String
  deriving DecidableEq, Repr

/-- The files of local repositories, the last added first. -/
structure LocalFiles where
  files : List LocalFile
  deriving DecidableEq, Repr

namespace LocalFiles

def empty : LocalFiles := ⟨[]⟩

/-- Adds a file, over an earlier one at its path. -/
def insert (fs : LocalFiles) (repo path text : String) : LocalFiles :=
  ⟨⟨repo, plainPath path, text⟩ :: fs.files⟩

def holds (fs : LocalFiles) (repo : String) : Bool := fs.files.any (·.repo = repo)

def get? (fs : LocalFiles) (repo path : String) : Option String :=
  (fs.files.find? fun f => f.repo = repo && f.path = plainPath path).map (·.text)

/-- Local repositories are no forks and have no environments. -/
def toSource (fs : LocalFiles) : Source where
  workflow repo path _ := .ok (fs.get? repo path)
  action repo path _ := .ok ((actionPaths path).findSome? (fs.get? repo))
  environments _ := .ok []
  repository repo := .ok (some ⟨repo, false, none⟩)

end LocalFiles

structure Layered where
  localFiles : LocalFiles
  remote : Option Source

namespace Layered

/-- The source that answers for a repository, if there is one. -/
def pick (l : Layered) (repo : String) : Option Source :=
  if l.localFiles.holds repo then some l.localFiles.toSource else l.remote

/-- Without a remote source every repository is treated like a local one. -/
def toSource (l : Layered) : Source where
  workflow repo path ref := ((l.pick repo).map fun s => s.workflow repo path ref).getD (.ok none)
  action repo path ref := ((l.pick repo).map fun s => s.action repo path ref).getD (.ok none)
  environments repo := ((l.pick repo).map fun s => s.environments repo).getD (.ok [])
  repository repo := ((l.pick repo).getD l.localFiles.toSource).repository repo

def asksRemote (l : Layered) (q : Query) : Bool := l.remote.isSome && !l.localFiles.holds q.repo

end Layered

end WorkflowAudit.Source
