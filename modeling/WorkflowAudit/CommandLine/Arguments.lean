import WorkflowAudit.Assoc
import WorkflowAudit.CommandLine.Options

/-!
Reading of arguments. Flags and settings may stand anywhere before a double hyphen, behind which
there are only inputs. A setting has its value behind an equals sign or in the argument after it.
What the arguments leave out, variables of the environment may say.
-/

namespace WorkflowAudit.CommandLine

inductive Flag where
  | offline
  | noProgress
  | noConfig
  | noExitCodes
  | verbose
  | quiet
  | help
  | version
  deriving DecidableEq, Repr

inductive Setting where
  | token
  | host
  | repoName
  | format
  | color
  | config
  deriving DecidableEq, Repr

inductive Parameter where
  | flag (f : Flag)
  | setting (s : Setting)
  deriving DecidableEq, Repr

namespace Parameter

def ofName? (name : String) : Option Parameter :=
  match name with
  | "offline" => some (flag .offline)
  | "no-progress" => some (flag .noProgress)
  | "no-config" => some (flag .noConfig)
  | "no-exit-codes" => some (flag .noExitCodes)
  | "verbose" => some (flag .verbose)
  | "quiet" => some (flag .quiet)
  | "help" => some (flag .help)
  | "version" => some (flag .version)
  | "gh-token" => some (setting .token)
  | "gh-hostname" => some (setting .host)
  | "repo-name" => some (setting .repoName)
  | "format" => some (setting .format)
  | "color" => some (setting .color)
  | "config" => some (setting .config)
  | _ => none

def ofLetter? (letter : Char) : Option Parameter :=
  match letter with
  | 'o' => some (flag .offline)
  | 'v' => some (flag .verbose)
  | 'q' => some (flag .quiet)
  | 'h' => some (flag .help)
  | 'V' => some (flag .version)
  | 'c' => some (setting .config)
  | _ => none

end Parameter

def checkValue (s : Setting) (value : String) : Except UsageError Unit :=
  match s with
  | .token =>
    match Hosting.Token.parse value with
    | .ok _ => .ok ()
    | .error _ => .error .malformedValue
  | .host =>
    match Hosting.Host.parse value with
    | .ok _ => .ok ()
    | .error _ => .error .malformedValue
  | .format => if (Format.parse? value).isSome then .ok () else .error .invalidValue
  | .color => if (ColorMode.parse? value).isSome then .ok () else .error .invalidValue
  | _ => .ok ()

structure Reading where
  flags : List Flag
  settings : List (Setting × String)
  inputs : List String
  /-- The last setting, as long as its value may come or has just come in an argument of its own. -/
  pending : Option (Setting × Option String)
  deriving DecidableEq, Repr

namespace Reading

def empty : Reading := ⟨[], [], [], none⟩

/-- A setting may be given once. -/
def put (s : Setting) (value : String) (r : Reading) : Except UsageError Reading :=
  if (r.settings.lookup s).isSome then .error .conflict
  else (checkValue s value).map fun _ => { r with settings := r.settings ++ [(s, value)] }

def settle (r : Reading) : Except UsageError Reading :=
  match r.pending with
  | none => .ok r
  | some (_, none) => .error .invalidValue
  | some (s, some value) => put s value { r with pending := none }

/-- Only the flags that are counted may be repeated. -/
def raise (f : Flag) (r : Reading) : Except UsageError Reading :=
  match r.settle with
  | .error e => .error e
  | .ok r =>
    match f with
    | .help => .error .help
    | .version => .error .version
    | f =>
      if r.flags.contains f && f ≠ .verbose && f ≠ .quiet then .error .conflict
      else .ok { r with flags := r.flags ++ [f] }

def putSetting (s : Setting) (value : Option String) (r : Reading) : Except UsageError Reading :=
  match r.settle, value with
  | .error e, _ => .error e
  | .ok r, some value => r.put s value
  | .ok r, none => .ok { r with pending := some (s, none) }

def addInput (input : String) (r : Reading) : Except UsageError Reading :=
  r.settle.map fun r => { r with inputs := r.inputs ++ [input] }

def readLong (body : String) (r : Reading) : Except UsageError Reading :=
  let (name, value) := match Text.cutFirst '=' body with
    | some (name, value) => (name, some value)
    | none => (body, none)
  match Parameter.ofName? name, value with
  | none, _ => .error .unknownArgument
  | some (.flag f), none => r.raise f
  | some (.flag _), some _ => .error .excessValue
  | some (.setting s), value => r.putSetting s value

/-- Letters behind a hyphen. The rest of a setting's letters is its value. -/
def readLetters : List Char → Reading → Except UsageError Reading
  | [], r => .ok r
  | c :: cs, r =>
    match Parameter.ofLetter? c with
    | none => .error .unknownArgument
    | some (.flag f) =>
      match r.raise f with
      | .ok r => readLetters cs r
      | .error e => .error e
    | some (.setting s) =>
      match cs with
      | [] => r.putSetting s none
      | '=' :: value => r.putSetting s (some (String.ofList value))
      | value => r.putSetting s (some (String.ofList value))

def readArgument (argument : String) (r : Reading) : Except UsageError Reading :=
  match argument.toList, r.pending with
  | '-' :: '-' :: body, _ => r.readLong (String.ofList body)
  | '-' :: c :: cs, _ => r.readLetters (c :: cs)
  | _, some (s, none) => .ok { r with pending := some (s, some argument) }
  | _, _ => r.addInput argument

def readInputs : List String → Reading → Except UsageError Reading
  | [], r => r.settle
  | input :: rest, r =>
    match r.addInput input with
    | .ok r => readInputs rest r
    | .error e => .error e

def readArguments : List String → Reading → Except UsageError Reading
  | [], r => r.settle
  | argument :: rest, r =>
    if argument = "--" then readInputs rest r
    else
      match r.readArgument argument with
      | .ok r => readArguments rest r
      | .error e => .error e

def settingVariables : List (Setting × String) :=
  [(.token, "GH_TOKEN"), (.host, "GH_HOST"), (.config, "PWNPATH_CONFIG")]

def fillSetting (env : Assoc String) (r : Reading) (s : Setting × String) :
    Except UsageError Reading :=
  match r.settings.lookup s.1, env.get? s.2 with
  | none, some value => r.put s.1 value
  | _, _ => .ok r

def fillOffline (env : Assoc String) (r : Reading) : Except UsageError Reading :=
  match r.flags.contains .offline, env.get? "PWNPATH_OFFLINE" with
  | false, some "true" => .ok { r with flags := r.flags ++ [.offline] }
  | false, some "false" => .ok r
  | false, some _ => .error .invalidValue
  | _, _ => .ok r

/-- Takes from the environment what the arguments leave out. -/
def fill (env : Assoc String) (r : Reading) : Except UsageError Reading :=
  match r.fillOffline env with
  | .ok r => settingVariables.foldlM (fillSetting env) r
  | .error e => .error e

/-- Refuses options that exclude each other, and a run without inputs. -/
def check (r : Reading) : Except UsageError Reading :=
  let has (f : Flag) := r.flags.contains f
  if ((r.settings.lookup .config).isSome && has .noConfig) || (has .verbose && has .quiet) then
    .error .conflict
  else if r.inputs.isEmpty then .error .missingInput
  else .ok r

def options (r : Reading) : Options :=
  let has (f : Flag) := r.flags.contains f
  let value (s : Setting) := r.settings.lookup s
  { offline := has .offline
    token := (value .token).bind fun v => (Hosting.Token.parse v).toOption
    host := ((value .host).bind fun v => (Hosting.Host.parse v).toOption).getD .default
    repoName := value .repoName
    verbosity := .ofCounts (r.flags.count .verbose) (r.flags.count .quiet)
    noProgress := has .noProgress
    format := ((value .format).bind Format.parse?).getD .plain
    color := (value .color).bind ColorMode.parse?
    config := value .config
    noConfig := has .noConfig
    noExitCodes := has .noExitCodes
    inputs := r.inputs }

end Reading

def Options.parse (env : Assoc String) (arguments : List String) : Except UsageError Options :=
  match Reading.readArguments arguments .empty with
  | .error e => .error e
  | .ok r =>
    match r.fill env with
    | .error e => .error e
    | .ok r => r.check.map Reading.options

end WorkflowAudit.CommandLine
