import WorkflowAudit.Text.Basic

/-!
Files below a directory that serves as the working directory, and what paths lead to from there.
-/

namespace WorkflowAudit

namespace Files

/-- A path as the list of its names; `.` and empty names don't count. -/
def names (path : String) : List String :=
  (Text.split '/' path).filter fun n => n ≠ "" && n ≠ "."

def demandsDirectory (path : String) : Bool :=
  Text.endsWith "/" path || Text.endsWith "/." path || path = "."

/-- The last name of a path without its extension, and the extension behind the last dot. A dot at
the start begins no extension. -/
def stemAndExtension (name : String) : String × Option String :=
  match Text.cutLast '.' name with
  | some (stem, extension) => if stem.isEmpty then (name, none) else (stem, some extension)
  | none => (name, none)

end Files

/-- All paths are absolute. -/
structure FileTree where
  files : List (List String × ByteArray)
  /-- Directories that are there even if they hold no file. -/
  directories : List (List String)
  workingDirectory : List String

namespace FileTree

def contents? (t : FileTree) (path : List String) : Option ByteArray := t.files.lookup path

/-- A directory is listed as one, or something is in it. -/
def isDirectory (t : FileTree) (path : List String) : Bool :=
  (t.workingDirectory :: t.directories).any path.isPrefixOf ||
    t.files.any fun f => path.isPrefixOf f.1 && path.length < f.1.length

/-- Goes on from a place; every name but the last is that of a directory. -/
def descend (t : FileTree) (place : List String) : List String → Option (List String)
  | [] => some place
  | name :: rest =>
    if !t.isDirectory place then none
    else if name = ".." then descend t place.dropLast rest
    else descend t (place ++ [name]) rest

def placeOf (t : FileTree) (path : String) (names : List String) : Option (List String) :=
  t.descend (if Text.startsWith "/" path then [] else t.workingDirectory) names

def directoryAt? (t : FileTree) (path : String) : Option (List String) :=
  if path.isEmpty then none else (t.placeOf path (Files.names path)).filter t.isDirectory

def fileAt? (t : FileTree) (path : String) : Option ByteArray :=
  if path.isEmpty || Files.demandsDirectory path then none
  else (t.placeOf path (Files.names path)).bind t.contents?

/-- The files below a directory, by their paths from there. -/
def below (t : FileTree) (directory : List String) : List (List String × ByteArray) :=
  t.files.filterMap fun f =>
    if directory.isPrefixOf f.1 && directory.length < f.1.length then
      some (f.1.drop directory.length, f.2)
    else none

end FileTree

end WorkflowAudit
