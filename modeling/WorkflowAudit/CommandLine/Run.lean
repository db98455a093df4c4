import WorkflowAudit.Audit.Indexed
import WorkflowAudit.CommandLine.Arguments
import WorkflowAudit.Configuration
import WorkflowAudit.Hosting.Ingestion
import WorkflowAudit.Report.Plain
import WorkflowAudit.Report.Record

/-!
A run of the program: from arguments, variables of the environment and files to the text of a
report and an exit code.
-/

namespace WorkflowAudit.CommandLine

structure Outcome where
  code : Nat
  output : String
  errors : String
  deriving DecidableEq, Repr

inductive Failure where
  | configuration (path : String) (e : ConfigurationError)
  | input (e : InputError)
  | token
  | access (slugs : List Hosting.Slug) (offline : Bool)
  deriving DecidableEq, Repr

namespace Failure

def configurationMessage (path : String) : String := "configuration error in " ++ path

def message : Failure → String
  | configuration path _ =>
    (⟨.error, none, "failed to load config: " ++ configurationMessage path,
      ["check your configuration file for errors", "pass --no-config to ignore it"]⟩ :
        Report.Diagnostic).render
  | input e => e.message
  | token =>
    Hosting.TokenError.unsendable.message ++
      "\n\nCaused by:\n    failed to parse header value"
  | access slugs offline =>
    let names := Text.join ", " (slugs.map (·.display))
    (⟨.error, none, "can't audit " ++ names ++ " without GitHub access",
      [if offline then "remove --offline to audit remote repositories"
        else "pass --gh-token or set GH_TOKEN"]⟩ : Report.Diagnostic).render

end Failure

def readConfiguration (path : String) (contents : Option ByteArray) :
    Except Failure Configuration :=
  match contents.bind String.fromUTF8? with
  | none => .error (.configuration path .unreadable)
  | some text =>
    match Configuration.parse text with
    | .ok c => .ok c
    | .error e => .error (.configuration path e)

/-- The configuration of a run: that of a given file, or of the first file that is found. -/
def configurationOf (t : FileTree) (o : Options) : Except Failure Configuration :=
  if o.noConfig then .ok .default
  else
    match o.config with
    | some path => readConfiguration path (t.fileAt? path)
    | none =>
      match Configuration.candidates.find? fun c => (t.fileAt? c).isSome with
      | some path => readConfiguration path (t.fileAt? path)
      | none => .ok .default

/-- Whether the report keeps its color where there is no terminal. -/
def keepsColor (env : Assoc String) (mode : Option ColorMode) : Bool :=
  let wanted :=
    (env.get? "CLICOLOR_FORCE").any (· ≠ "0") && (env.get? "NO_COLOR").all (·.isEmpty)
  match mode with
  | some .always => true
  | some .never => false
  | some .auto => wanted
  | none =>
    !env.contains "NO_COLOR" &&
      (env.contains "FORCE_COLOR" || env.contains "CLICOLOR_FORCE")

/-- The access to the host of remote repositories, if there is a token for it. -/
def accessOf (s : Hosting.Server) (o : Options) : Except Failure (Option Hosting.Server) :=
  match if o.offline then none else o.token with
  | none => .ok none
  | some token => if token.isSendable then .ok (some s) else .error .token

def addLocal (t : Classification.Tables) (workflows : List Document) : Hosting.Ingestion :=
  workflows.foldl
    (fun i d => { i with graph := i.graph.addWorkflow t d, cache := i.cache.insertWorkflow d })
    ⟨.empty, .empty, 0⟩

def findings (t : Classification.Tables) (access : Option Hosting.Server) (inputs : Inputs) :
    Findings :=
  let start := addLocal t inputs.workflows
  let ingested := match access with
    | some server => start.addSlugs t server inputs.remote
    | none => start
  let source := (Source.Layered.mk inputs.localFiles (access.map (·.toSource))).toSource
  ingested.graph.audit (ingested.cache.knowledge source) t

def audit (s : Hosting.Server) (t : FileTree) (o : Options) : Except Failure Findings :=
  match configurationOf t o with
  | .error e => .error e
  | .ok configuration =>
    match Inputs.collect t o.repoName o.inputs with
    | .error e => .error (.input e)
    | .ok inputs =>
      match accessOf s o with
      | .error e => .error e
      | .ok access =>
        if access.isNone && !inputs.remote.isEmpty then .error (.access inputs.remote o.offline)
        else .ok (findings (.ofConfiguration configuration) access inputs)

def findingsCode : Nat := 14

def failureText (f : Failure) : String :=
  Report.escape "1" ++ Report.red "fatal" ++ Report.escape "0" ++ ": no audit was performed\n" ++
    f.message ++ "\n"

def report (colors : Bool) (o : Options) (fs : Findings) : String :=
  match o.format with
  | .json => Report.findingsJson fs
  | .plain => if colors then Report.findingsText fs else Report.strip (Report.findingsText fs)

def versionText : String := "pwnpath 0.3.0\n"

def helpText : String := "Usage: pwnpath [OPTIONS] <INPUTS>...\n"

def usageOutcome : UsageError → Outcome
  | .help => ⟨0, helpText, ""⟩
  | .version => ⟨0, versionText, ""⟩
  | _ => ⟨2, "", helpText⟩

/-- Runs the program on files, with a server to ask for what they leave out. -/
def run (s : Hosting.Server) (t : FileTree) (env : Assoc String) (arguments : List String) :
    Outcome :=
  match Options.parse env arguments with
  | .error e => usageOutcome e
  | .ok o =>
    let colors := keepsColor env o.color
    match audit s t o with
    | .error f => ⟨1, "", if colors then failureText f else Report.strip (failureText f)⟩
    | .ok fs =>
      ⟨if o.noExitCodes || fs.isEmpty then 0 else findingsCode, report colors o fs, ""⟩

end WorkflowAudit.CommandLine
