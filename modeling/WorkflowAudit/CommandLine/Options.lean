import WorkflowAudit.Hosting.Host

/-!
The options of a run, and what can be wrong with the arguments that state them.
-/

namespace WorkflowAudit.CommandLine

inductive Format where
  | plain
  | json
  deriving DecidableEq, Repr

def Format.parse? (s : String) : Option Format :=
  match s with
  | "plain" => some .plain
  | "json" => some .json
  | _ => none

inductive ColorMode where
  | auto
  | always
  | never
  deriving DecidableEq, Repr

def ColorMode.parse? (s : String) : Option ColorMode :=
  match s with
  | "auto" => some .auto
  | "always" => some .always
  | "never" => some .never
  | _ => none

inductive Verbosity where
  | off
  | error
  | warn
  | info
  | debug
  | trace
  deriving DecidableEq, Repr

/-- Warnings and notes are shown unless asked otherwise. -/
def Verbosity.ofCounts (verbose quiet : Nat) : Verbosity :=
  match verbose, quiet with
  | 0, 0 => .info
  | 0, 1 => .warn
  | 0, 2 => .error
  | 0, _ => .off
  | 1, _ => .debug
  | _, _ => .trace

structure Options where
  offline : Bool
  token : Option Hosting.Token
  host : Hosting.Host
  repoName : Option String
  verbosity : Verbosity
  noProgress : Bool
  format : Format
  color : Option ColorMode
  config : Option String
  noConfig : Bool
  noExitCodes : Bool
  inputs : List String
  deriving DecidableEq, Repr

inductive UsageError where
  | unknownArgument
  /-- A value that is none of those allowed, or no value where one is needed. -/
  | invalidValue
  | malformedValue
  | missingInput
  | conflict
  | excessValue
  | help
  | version
  deriving DecidableEq, Repr

end WorkflowAudit.CommandLine
