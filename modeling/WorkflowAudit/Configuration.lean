import WorkflowAudit.Uses.Pattern
import WorkflowAudit.Yaml.Value

/-!
The configuration of an audit. Its tables extend the built-in ones. A file may leave out any of
them, but may hold nothing else.
-/

namespace WorkflowAudit

structure Configuration where
  sinkPatterns : List String
  sinkPrefixes : List String
  permissionCheckPatterns : List String
  permissionCheckActions : List UsesPattern
  safeActions : List UsesPattern
  concurrency : Nat
  deriving DecidableEq, Repr

inductive ConfigurationError where
  | unreadable
  | invalid
  deriving DecidableEq, Repr

namespace Configuration

def default : Configuration := ⟨[], [], [], [], [], 8⟩

/-- The files that are looked for, the first one found being used. -/
def candidates : List String :=
  [".github/pwnpath.yml", ".github/pwnpath.yaml", "pwnpath.yml", "pwnpath.yaml"]

abbrev Anchors := List (Nat × Yaml.Node)

def target (anchors : Anchors) : Yaml.Node → Option Yaml.Node
  | .alias n => (anchors.find? (·.1 = n)).map (·.2)
  | node => some node

/-- The text of a scalar, however it is written. -/
def textOf (anchors : Anchors) (node : Yaml.Node) : Option String :=
  match target anchors node with
  | some (.scalar _ _ s _) => some s
  | _ => none

/-- A list of texts; nothing at all is the empty list. -/
def textsOf (anchors : Anchors) (node : Yaml.Node) : Option (List String) :=
  match target anchors node with
  | some (.sequence _ _ items) => items.mapM (textOf anchors)
  | some (.scalar _ _ s style) => if s.isEmpty && style = .plain then some [] else none
  | _ => none

def patternsOf (anchors : Anchors) (node : Yaml.Node) : Option (List UsesPattern) :=
  (textsOf anchors node).bind fun ss => ss.mapM UsesPattern.parse?

/-- A number above zero of at most 64 bits. -/
def countOf (anchors : Anchors) (node : Yaml.Node) : Option Nat :=
  match target anchors node with
  | some (.scalar _ tag s style) =>
    if style = .plain || (style = .literal && tag = some (Yaml.coreTag "int")) then
      match Yaml.natural? s.toList with
      | some n => if 0 < n && n < Nat.pow 2 64 then some n else none
      | none => none
    else none
  | _ => none

def put (anchors : Anchors) (key : String) (node : Yaml.Node) (c : Configuration) :
    Option Configuration :=
  match key with
  | "sink-patterns" => (textsOf anchors node).map fun v => { c with sinkPatterns := v }
  | "sink-prefixes" => (textsOf anchors node).map fun v => { c with sinkPrefixes := v }
  | "permission-check-patterns" =>
    (textsOf anchors node).map fun v => { c with permissionCheckPatterns := v }
  | "permission-check-actions" =>
    (patternsOf anchors node).map fun v => { c with permissionCheckActions := v }
  | "safe-actions" => (patternsOf anchors node).map fun v => { c with safeActions := v }
  | "concurrency" => (countOf anchors node).map fun v => { c with concurrency := v }
  | _ => none

/-- Reads the entries; no key comes twice. -/
def ofEntries (anchors : Anchors) :
    List (Yaml.Node × Yaml.Node) → List String → Configuration → Option Configuration
  | [], _, c => some c
  | (k, v) :: rest, seen, c =>
    match textOf anchors k with
    | none => none
    | some key =>
      if seen.contains key then none
      else
        match put anchors key v c with
        | some c => ofEntries anchors rest (key :: seen) c
        | none => none

/-- The configuration that a text spells. A blank text is the default. -/
def parse (text : String) : Except ConfigurationError Configuration :=
  if Text.isBlankText text then .ok default
  else
    let read :=
      match Yaml.Node.ofText? text with
      | some none => some default
      | some (some (.mapping a t entries)) =>
        ofEntries (Yaml.Node.mapping a t entries |>.anchored []) entries [] default
      | some (some (.scalar _ _ s style)) =>
        if s.isEmpty && style = .plain then some default else none
      | _ => none
    match read with
    | some c => .ok c
    | none => .error .invalid

end Configuration

end WorkflowAudit
