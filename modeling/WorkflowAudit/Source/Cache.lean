import WorkflowAudit.Document.Reader
import WorkflowAudit.Source.Basic

/-!
A cache in front of a source. What the source has answered is not asked again, absence included;
what it fails to answer counts as absent and is asked again. The answers of a source are fixed, so
that what the cache says depends on the order of lookups only through the workflows put into it.
-/

namespace WorkflowAudit.Source

/-- What a document is cached under; the path has no `./` in front. -/
structure DocumentKey where
  repo : String
  ref : String
  path : String
  deriving DecidableEq, Repr

def DocumentKey.of (repo ref path : String) : DocumentKey := ⟨repo, ref, plainPath path⟩

/-- The answers so far, the newest first. -/
structure Cache where
  repositories : List (String × Option RepositoryInfo)
  environments : List (String × List String)
  workflows : List (DocumentKey × Option Document)
  actions : List (DocumentKey × Option Document)

inductive Lookup where
  | repository (repo : String)
  | environments (repo : String)
  | workflow (key : DocumentKey)
  | action (key : DocumentKey)
  deriving DecidableEq, Repr

def Lookup.query : Lookup → Query
  | repository repo => .repository repo
  | environments repo => .environments repo
  | workflow key => .workflow key.repo key.path key.ref
  | action key => .action key.repo key.path key.ref

structure Knowledge where
  repository : (repo : String) → Option RepositoryInfo
  environments : (repo : String) → List String
  workflow : DocumentKey → Option Document
  action : DocumentKey → Option Document

namespace Knowledge

def isFork (k : Knowledge) (repo : String) : Bool := (k.repository repo).any (·.isFork)

def isProtected (k : Knowledge) (repo environment : String) : Bool :=
  (k.environments repo).contains environment

end Knowledge

/-- A value that a source answers with, an error counting as absence. -/
def answered {α : Type} (absent : α) : Except SourceError α → α
  | .ok a => a
  | .error _ => absent

def documentAt (key : DocumentKey) (text : String) : Document :=
  Document.parse text key.repo key.ref key.path

namespace Cache

def empty : Cache := ⟨[], [], [], []⟩

def insertWorkflow (c : Cache) (d : Document) : Cache :=
  { c with workflows := (.of d.repo d.ref d.path, some d) :: c.workflows }

def askWorkflow (s : Source) (key : DocumentKey) : Except SourceError (Option Document) :=
  (s.workflow key.repo key.path key.ref).map (·.map (documentAt key))

def askAction (s : Source) (key : DocumentKey) : Except SourceError (Option Document) :=
  (s.action key.repo key.path key.ref).map (·.map (documentAt key))

def knowledge (c : Cache) (s : Source) : Knowledge where
  repository repo := (c.repositories.lookup repo).getD (answered none (s.repository repo))
  environments repo := (c.environments.lookup repo).getD (answered [] (s.environments repo))
  workflow key := (c.workflows.lookup key).getD (answered none (askWorkflow s key))
  action key := (c.actions.lookup key).getD (answered none (askAction s key))

def holds (c : Cache) : Lookup → Bool
  | .repository repo => (c.repositories.lookup repo).isSome
  | .environments repo => (c.environments.lookup repo).isSome
  | .workflow key => (c.workflows.lookup key).isSome
  | .action key => (c.actions.lookup key).isSome

/-- The cache with the answer of the source to a lookup, if there is one. -/
def remember (c : Cache) (s : Source) : Lookup → Cache
  | .repository repo =>
    match s.repository repo with
    | .ok info => { c with repositories := (repo, info) :: c.repositories }
    | .error _ => c
  | .environments repo =>
    match s.environments repo with
    | .ok names => { c with environments := (repo, names) :: c.environments }
    | .error _ => c
  | .workflow key =>
    match askWorkflow s key with
    | .ok d => { c with workflows := (key, d) :: c.workflows }
    | .error _ => c
  | .action key =>
    match askAction s key with
    | .ok d => { c with actions := (key, d) :: c.actions }
    | .error _ => c

def after (c : Cache) (s : Source) (l : Lookup) : Cache := if c.holds l then c else c.remember s l

/-- The cache after lookups, and what the source was asked meanwhile. -/
def afterAll (s : Source) : Cache → List Lookup → Cache × List Query
  | c, [] => (c, [])
  | c, l :: rest =>
    let (last, asked) := afterAll s (c.after s l) rest
    (last, (if c.holds l then [] else [l.query]) ++ asked)

end Cache

end WorkflowAudit.Source
