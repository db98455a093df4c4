import WorkflowAudit.Assoc
import WorkflowAudit.Evaluation.Value

/-!
What contexts are bound to, and the environment of an outsider: somebody without any association to
the repository, who opens pull requests from a fork, writes comments and picks events.
-/

namespace WorkflowAudit

/-- Bindings of contexts, whose names are held in lower case, each once. -/
structure Environment where
  bindings : Assoc Value
  deriving Repr

namespace Environment

def empty : Environment := ⟨[]⟩

/-- Binds a context, over an earlier binding of it. -/
def bind (env : Environment) (context : String) (value : Value) : Environment :=
  ⟨env.bindings.insert (Text.fold context) value⟩

def bindAll (env : Environment) (contexts : List String) (value : String → Value) : Environment :=
  contexts.foldl (fun env c => env.bind c (value c)) env

def lookup (env : Environment) (context : String) : Option Value :=
  env.bindings.get? (Text.fold context)

def options (names : List String) : Value := .flexible (names.map .text)

def either : Value := .flexible [.bool true, .bool false]

def eventNames : List String :=
  ["pull_request_target", "pull_request", "pull_request_review", "pull_request_review_comment",
   "issue_comment", "issues", "discussion", "discussion_comment", "workflow_run", "fork", "watch"]

def eventActions : List String :=
  ["opened", "edited", "created", "reopened", "synchronize", "labeled", "unlabeled", "submitted",
   "requested", "completed", "closed"]

def authorAssociations : List String :=
  ["NONE", "CONTRIBUTOR", "FIRST_TIME_CONTRIBUTOR", "FIRST_TIMER"]

/-- Events of an outsider that start the workflow a later one waits for. -/
def workflowRunEvents : List String :=
  ["pull_request", "pull_request_review", "pull_request_review_comment", "issue_comment", "issues"]

def workflowRunConclusions : List String := ["success", "failure"]

def actorContexts : List String :=
  ["github.actor", "github.triggering_actor", "github.event.sender.login",
   "github.event.pull_request.user.login", "github.event.pull_request.head.user.login",
   "github.event.issue.user.login", "github.event.comment.user.login",
   "github.event.review.user.login", "github.event.discussion.user.login",
   "github.event.workflow_run.actor.login", "github.event.workflow_run.triggering_actor.login"]

def associationContexts : List String :=
  ["github.event.comment.author_association", "github.event.issue.author_association",
   "github.event.pull_request.author_association", "github.event.review.author_association",
   "github.event.discussion.author_association"]

def freeformContexts : List String :=
  ["github.head_ref", "github.event.comment.body", "github.event.issue.title",
   "github.event.issue.body", "github.event.issue.pull_request", "github.event.pull_request.title",
   "github.event.pull_request.body", "github.event.pull_request.head.ref",
   "github.event.pull_request.head.label", "github.event.review.body",
   "github.event.review_comment.body", "github.event.discussion.title",
   "github.event.discussion.body", "github.event.head_commit.message",
   "github.event.workflow_run.head_branch", "github.event.workflow_run.display_title",
   "github.event.label.name"]

def forkContexts : List String :=
  ["github.event.pull_request.head.repo.fork", "github.event.workflow_run.head_repository.fork"]

def pullRequestFlags : List String :=
  ["github.event.pull_request.merged", "github.event.pull_request.draft"]

def outsider (login : String) : Environment :=
  let env := empty.bindAll actorContexts fun _ => .text login
  let env := env.bindAll associationContexts fun _ => options authorAssociations
  let env := env.bindAll freeformContexts .wildcard
  let env := env.bindAll forkContexts fun _ => .bool true
  let env := env.bind "github.event_name" (options eventNames)
  let env := env.bind "github.event.action" (options eventActions)
  let env := env.bind "github.event.workflow_run.event" (options workflowRunEvents)
  let env := env.bind "github.event.workflow_run.conclusion" (options workflowRunConclusions)
  env.bindAll pullRequestFlags fun _ => either

/-- A login that nobody can expect: sixteen hexadecimal digits without a meaning. -/
def login : String := "8f3a61c9d2407be5"

def attacker : Environment := outsider login

end Environment

end WorkflowAudit
