import WorkflowAudit.CommandLine.Run

/-!
The program. It reads the variables and the files that its arguments ask for, and prints the
outcome of the run. It reaches no host, so that remote repositories add nothing.
-/

namespace WorkflowAudit.CommandLine

def variableNames : List String :=
  ["PWNPATH_OFFLINE", "GH_TOKEN", "GH_HOST", "PWNPATH_CONFIG", "NO_COLOR", "FORCE_COLOR",
    "CLICOLOR_FORCE"]

def readVariables : IO (Assoc String) :=
  variableNames.filterMapM fun name => do return (← IO.getEnv name).map fun value => (name, value)

/-- The place of a path, where each `..` takes the last name away. -/
def placeFrom (workingDirectory : List String) (path : String) : List String :=
  (Files.names path).foldl
    (fun place name => if name = ".." then place.dropLast else place ++ [name])
    (if Text.startsWith "/" path then [] else workingDirectory)

def readPaths (o : Options) : List String :=
  o.inputs ++ match o.config with
    | some path => [path]
    | none => Configuration.candidates

/-- The file at a path, or the files below it. Directories behind links are left out. -/
partial def addPath (path : String) (place : List String) (t : FileTree) : IO FileTree := do
  let target := (← IO.currentDir) / path
  if ← target.isDir then
    let mut t := { t with directories := t.directories ++ [place] }
    for entry in ← (← IO.FS.realPath target).readDir do
      if !(← entry.path.isDir) || (← IO.FS.realPath entry.path) == entry.path then
        t ← addPath entry.path.toString (place ++ [entry.fileName]) t
    return t
  else if (← target.pathExists) && (t.contents? place).isNone then
    return { t with files := t.files ++ [(place, ← IO.FS.readBinFile target)] }
  else return t

def readTree (o : Options) : IO FileTree := do
  let workingDirectory := Files.names (← IO.currentDir).toString
  (readPaths o).foldlM
    (fun t path => addPath path (placeFrom workingDirectory path) t)
    ⟨[], [], workingDirectory⟩

end WorkflowAudit.CommandLine

open WorkflowAudit WorkflowAudit.CommandLine in
def main (arguments : List String) : IO UInt32 := do
  let env ← readVariables
  let tree ← match Options.parse env arguments with
    | .ok o => readTree o
    | .error _ => pure ⟨[], [], []⟩
  let outcome := run .unreachable tree env arguments
  (← IO.getStdout).putStr outcome.output
  (← IO.getStderr).putStr outcome.errors
  return outcome.code.toUInt32
