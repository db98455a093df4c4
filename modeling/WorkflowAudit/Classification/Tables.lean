import WorkflowAudit.Configuration
import WorkflowAudit.Context.Pattern

/-!
What the classification of steps knows beforehand, and how a configuration extends it.
-/

namespace WorkflowAudit.Classification

/-- Parts of a script that run code of the tree that was checked out. -/
def sinkPatterns : List String :=
  ["npm install", "npm ci", "npm run", "npm test", "npx ", "yarn ", "pnpm ", "pip install",
   "poetry install", "python setup.py", "pytest", "tox ", "make ", "cmake ", "cargo build",
   "cargo test", "cargo run", "go build", "go run", "go test", "go generate", "mvn ", "gradle ",
   "./gradlew", "bundle install", "bundle exec", "rake ", "composer install", "dotnet build",
   "dotnet test", "docker build", "pre-commit run", "eval ", "source "]

def sinkCommands : List String :=
  ["./", "bash ", "sh ", "python ", "python3 ", "node ", "ruby ", "perl ", "make", ". "]

def permissionCheckPatterns : List String :=
  ["getCollaboratorPermissionLevel", "checkCollaborator", "getMembershipForUserInOrg",
   "/collaborators/"]

def permissionCheckActions : List String :=
  ["sushichop/action-repository-permission", "prince-chrismc/check-actor-permissions-action",
   "lannonbr/repo-permission-check-action", "actions-cool/check-user-permission",
   "TheModdingInquisition/actions-team-membership", "morfien101/actions-authorized-user"]

def failingPermissionCheckActions : List String :=
  ["sushichop/action-repository-permission", "prince-chrismc/check-actor-permissions-action",
   "lannonbr/repo-permission-check-action", "morfien101/actions-authorized-user"]

/-- Actions that are taken to be safe without a look at them. -/
def safeActions : List String :=
  ["actions/*", "github/*", "Azure/*", "aws-actions/*", "docker/*", "google-github-actions/*",
   "hashicorp/*"]

def failureMarkers : List String :=
  ["core.setFailed", "exit 1", "process.exit(1)", "throw new Error", "throw ", "Write-Error"]

/-- Parts of a script that ask whether a pull request comes from a fork. -/
def forkCheckMarkers : List String := ["head.repo.full_name", "head.repo.fork", "isCrossRepository"]

/-- Actions that run one of their inputs as a script, with the name of that input. -/
def scriptActions : List (String × String) :=
  [("actions/github-script", "script"), ("amadevus/pwsh-script", "script"),
   ("jannekem/run-python-script-action", "script"), ("cardinalby/js-eval-action", "expression")]

def staticContexts : List String :=
  ["github.sha", "github.ref", "github.ref_name", "github.ref_type", "github.base_ref",
   "github.repository", "github.repository_id", "github.repository_owner",
   "github.repository_owner_id", "github.run_id", "github.run_number", "github.run_attempt",
   "github.workflow", "github.workflow_ref", "github.workspace", "github.server_url",
   "github.api_url", "github.graphql_url", "github.token", "github.job", "github.action_path",
   "github.event_path", "github.event_name", "github.event.number",
   "github.event.pull_request.number", "github.event.issue.number",
   "github.event.pull_request.head.sha", "github.event.pull_request.base",
   "github.event.repository", "github.event.workflow_run.id", "github.event.workflow_run.head_sha",
   "secrets", "runner", "matrix", "vars", "job", "strategy", "steps.*.outcome",
   "steps.*.conclusion", "needs.*.result"]

def safeCheckoutRefs : List String :=
  ["github.sha", "github.ref", "github.ref_name", "github.base_ref",
   "github.event.repository.default_branch", "github.event.pull_request.base.ref",
   "github.event.pull_request.base.sha"]

/-- Parts of a reference that point at the code of a pull request. -/
def pullRequestMarkers : List String :=
  ["head_ref", "pull_request.head", "head.ref", "head.sha", "head_sha", "head_branch",
   "pull_request.number", "event.number", "issue.number", "refs/pull/", "pr_number", "pull/"]

def staticPatterns : List Context.Pattern := staticContexts.filterMap Context.Pattern.ofString?

def isStatic (context : String) : Bool := staticPatterns.any (·.covers context)

structure Tables where
  sinkPatterns : List String
  sinkCommands : List String
  permissionCheckPatterns : List String
  permissionCheckActions : List UsesPattern
  failingPermissionCheckActions : List UsesPattern
  safeActions : List UsesPattern
  deriving DecidableEq, Repr

namespace Tables

def default : Tables where
  sinkPatterns := Classification.sinkPatterns
  sinkCommands := Classification.sinkCommands
  permissionCheckPatterns := Classification.permissionCheckPatterns
  permissionCheckActions := Classification.permissionCheckActions.filterMap UsesPattern.parse?
  failingPermissionCheckActions :=
    Classification.failingPermissionCheckActions.filterMap UsesPattern.parse?
  safeActions := Classification.safeActions.filterMap UsesPattern.parse?

/-- The built-in tables with the entries of a configuration behind them. -/
def ofConfiguration (c : Configuration) : Tables :=
  { default with
    sinkPatterns := default.sinkPatterns ++ c.sinkPatterns
    sinkCommands := default.sinkCommands ++ c.sinkPrefixes
    permissionCheckPatterns := default.permissionCheckPatterns ++ c.permissionCheckPatterns
    permissionCheckActions := default.permissionCheckActions ++ c.permissionCheckActions
    safeActions := default.safeActions ++ c.safeActions }

end Tables

end WorkflowAudit.Classification
