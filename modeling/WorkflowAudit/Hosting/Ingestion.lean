import WorkflowAudit.Graph.Indexed
import WorkflowAudit.Hosting.Client
import WorkflowAudit.Inputs
import WorkflowAudit.Source.Cache

/-!
Ingestion of hosted repositories: their workflows are fetched and added to a graph, one repository
after the other. A repository that can't be fetched adds nothing.
-/

namespace WorkflowAudit.Hosting

structure Ingestion where
  graph : IndexedGraph
  cache : Source.Cache
  count : Nat

namespace Ingestion

def addDocument (t : Classification.Tables) (i : Ingestion) (d : Document) : Ingestion where
  graph := i.graph.addWorkflow t d
  cache := i.cache.insertWorkflow d
  count := if d.isValid then i.count + 1 else i.count

/-- The reference that a slug is fetched at: its own, or the default branch of the repository. -/
def refOf (s : Server) (slug : Slug) (cache : Source.Cache) : String × Source.Cache :=
  match slug.ref with
  | some ref => (ref, cache)
  | none =>
    let info := (cache.knowledge s.toSource).repository slug.name
    ((info.bind (·.defaultBranch)).getD localRef, cache.after s.toSource (.repository slug.name))

def addSlug (t : Classification.Tables) (s : Server) (i : Ingestion) (slug : Slug) : Ingestion :=
  let (ref, cache) := refOf s slug i.cache
  match s.fetchWorkflows { slug with ref := some ref } with
  | .error _ => { i with cache := cache }
  | .ok files =>
    let documents := files.map fun f => Document.parse f.2 slug.name ref f.1
    documents.foldl (addDocument t) { i with cache := cache }

def addSlugs (t : Classification.Tables) (s : Server) (slugs : List Slug) (i : Ingestion) :
    Ingestion :=
  slugs.foldl (addSlug t s) i

end Ingestion

end WorkflowAudit.Hosting
