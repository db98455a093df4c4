import WorkflowAudit.Files.Glob
import WorkflowAudit.Files.Tree

/-!
Files that say which others to leave out, line by line. A directory has its own such file, and one
beside the history of the repository. The last line that fits a path decides, and of several files
the one closest to the path; what lies in a directory that is left out is left out with it.
-/

namespace WorkflowAudit.Files

structure IgnoreRule where
  pattern : List Glob.Token
  keeps : Bool
  onlyDirectories : Bool

namespace IgnoreRule

/-- The signs in front of a pattern: whether it keeps, whether it stands for a path from the
directory of the file, and the pattern. -/
def cutSigns (line : List Char) : Bool × Bool × List Char :=
  match line with
  | '\\' :: '!' :: rest => (false, false, '!' :: rest)
  | '\\' :: '#' :: rest => (false, false, '#' :: rest)
  | '!' :: '/' :: rest => (true, true, rest)
  | '!' :: rest => (true, false, rest)
  | '/' :: rest => (false, true, rest)
  | _ => (false, false, line)

/-- A slash at the end, with a backslash before it, makes a pattern one of directories. -/
def cutSlash (pattern : List Char) : Bool × List Char :=
  match pattern.reverse with
  | '/' :: '\\' :: rest => (true, rest.reverse)
  | '/' :: rest => (true, rest.reverse)
  | _ => (false, pattern)

/-- A pattern without a slash fits at any depth, and two stars at the end fit only what is within.
-/
def widen (isRooted : Bool) (pattern : String) : String :=
  let hasStars := Text.startsWith "**/" pattern || pattern = "**"
  let isPlaced := isRooted || pattern.toList.contains '/' || hasStars
  let deep := if isPlaced then pattern else "**/" ++ pattern
  if Text.endsWith "/**" deep then deep ++ "/*" else deep

/-- The rule that a line states. Comments and blank lines state none, nor do malformed patterns. -/
def ofLine? (line : String) : Option IgnoreRule :=
  if Text.startsWith "#" line then none
  else
    let line := if Text.endsWith "\\ " line then line.toList else Text.trimEndChars line.toList
    if line.isEmpty then none
    else
      let (keeps, isRooted, pattern) := cutSigns line
      let (onlyDirectories, pattern) := cutSlash pattern
      (Glob.parse? (widen isRooted (String.ofList pattern))).map (⟨·, keeps, onlyDirectories⟩)

def fits (r : IgnoreRule) (path : String) (isDirectory : Bool) : Bool :=
  (!r.onlyDirectories || isDirectory) && Glob.accepts r.pattern path

end IgnoreRule

def splitLines : List UInt8 → List (List UInt8)
  | [] => [[]]
  | b :: bs =>
    if b = 10 then [] :: splitLines bs
    else match splitLines bs with
      | line :: rest => (b :: line) :: rest
      | [] => [[b]]

/-- The lines before the first one that is no text, without a mark of the byte order. -/
def textLines (contents : ByteArray) : List String :=
  let lines := (splitLines contents.toList).map fun l =>
    String.fromUTF8? (if l.getLast? = some 13 then l.dropLast else l).toByteArray
  let texts := (lines.takeWhile (·.isSome)).filterMap id
  match texts with
  | first :: rest => String.ofList (first.toList.dropWhile (· = '\ufeff')) :: rest
  | [] => []

def ignoreRules (contents : Option ByteArray) : List IgnoreRule :=
  ((contents.map textLines).getD []).filterMap IgnoreRule.ofLine?

/-- What the rules say of a path, if anything: whether it is kept. -/
def verdict? (rules : List IgnoreRule) (path : String) (isDirectory : Bool) : Option Bool :=
  (rules.reverse.find? (·.fits path isDirectory)).map (·.keeps)

/-- A directory with what a path below it looks like from there. -/
structure Viewpoint where
  directory : List String
  path : String

/-- The viewpoints of a path below a directory, the closest first. -/
def viewpoints (directory : List String) : List String → List Viewpoint
  | [] => []
  | name :: rest =>
    viewpoints (directory ++ [name]) rest ++ [⟨directory, Text.join "/" (name :: rest)⟩]

def verdictOf (t : FileTree) (file : List String) (isDirectory : Bool) (v : Viewpoint) :
    Option Bool :=
  verdict? (ignoreRules (t.contents? (v.directory ++ file))) v.path isDirectory

/-- Whether the path below a directory is left out by itself. -/
def isIgnored (t : FileTree) (directory below : List String) (isDirectory : Bool) : Bool :=
  let views := viewpoints directory below
  let verdict := views.findSome? (verdictOf t [".gitignore"] isDirectory) <|>
    views.findSome? (verdictOf t [".git", "info", "exclude"] isDirectory)
  verdict = some false

/-- Whether a file below a directory, or a directory on the way to it, is left out. -/
def isLeftOut (t : FileTree) (directory below : List String) : Bool :=
  isIgnored t directory below false ||
    (List.range below.length).any fun n => 0 < n && isIgnored t directory (below.take n) true

end WorkflowAudit.Files
