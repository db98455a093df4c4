import WorkflowAudit.Expression.Parser
import WorkflowAudit.Text.Word

/-!
Expressions within text: the bodies between the fences of a text, and the contexts that a body
mentions. A body that is no expression is scanned for dotted paths instead, with an index in
brackets read as one more component.
-/

namespace WorkflowAudit.Context

/-- A body up to the double brace that closes it, which does not stand within single quotes. -/
def fencedBody (quoted : Bool) : List Char → Option (List Char × List Char)
  | [] => none
  | c :: cs =>
    if !quoted && c = '\x7d' && cs.head? = some '\x7d' then some ([], cs.tail)
    else
      (fencedBody (if c = '\'' then !quoted else quoted) cs).map fun (body, rest) =>
        (c :: body, rest)

/-- The bodies of all fences in the first `fuel` places of a text. -/
def bodiesFrom : Nat → List Char → List (List Char)
  | 0, _ => []
  | _ + 1, [] => []
  | fuel + 1, c :: cs =>
    match Text.afterFront ['$', '\x7b', '\x7b'] (c :: cs) with
    | none => bodiesFrom fuel cs
    | some rest =>
      match fencedBody false rest with
      | none => []
      | some (body, rest) => Text.trimChars body :: bodiesFrom fuel rest

/-- The trimmed bodies of the fenced expressions of a text, in order. -/
def bodies (text : String) : List String :=
  (bodiesFrom (text.toList.length + 1) text.toList).map String.ofList

/-- What stands in brackets: digits or a star for any component, or a quoted name. -/
def indexContent (cs : List Char) : Option (List Char × List Char) :=
  match cs with
  | '*' :: rest => some (['*'], rest)
  | '\'' :: rest => Text.cutFirstChars '\'' rest
  | '"' :: rest => Text.cutFirstChars '"' rest
  | rest =>
    if (rest.takeWhile Text.isDecimal).isEmpty then none
    else some (['*'], rest.dropWhile Text.isDecimal)

def indexRest (cs : List Char) : Option (List Char × List Char) :=
  match indexContent (Text.trimStartChars cs) with
  | none => none
  | some (component, rest) =>
    match Text.trimStartChars rest with
    | ']' :: rest => some (component, rest)
    | _ => none

def dotIndices : Nat → List Char → List Char
  | 0, cs => cs
  | _ + 1, [] => []
  | fuel + 1, c :: cs =>
    if c = '[' then
      match indexRest cs with
      | some (component, rest) => '.' :: component ++ dotIndices fuel rest
      | none => c :: dotIndices fuel cs
    else c :: dotIndices fuel cs

def dropQuoted (quoted : Bool) : List Char → List Char
  | [] => []
  | c :: cs =>
    if c = '\'' then dropQuoted (!quoted) cs
    else if quoted then dropQuoted quoted cs
    else c :: dropQuoted quoted cs

def isPathChar (c : Char) : Bool := Text.isWordChar c || c = '-'

def componentsRest : Nat → List Char → List Char × List Char
  | 0, cs => ([], cs)
  | fuel + 1, cs =>
    match cs with
    | '.' :: '*' :: rest =>
      let (more, rest) := componentsRest fuel rest
      ('.' :: '*' :: more, rest)
    | '.' :: after =>
      let name := after.takeWhile isPathChar
      if name.isEmpty then ([], cs)
      else
        let (more, rest) := componentsRest fuel (after.dropWhile isPathChar)
        ('.' :: name ++ more, rest)
    | _ => ([], cs)

/-- A dotted path at the head of a text: a name and at least one component. -/
def pathRest (cs : List Char) : Option (List Char × List Char) :=
  match cs with
  | [] => none
  | c :: _ =>
    if c.isAlpha || c = '_' then
      let head := cs.takeWhile isPathChar
      let (components, rest) := componentsRest cs.length (cs.dropWhile isPathChar)
      if components.isEmpty then none else some (head ++ components, rest)
    else none

def pathsFrom : Nat → List Char → List (List Char)
  | 0, _ => []
  | _ + 1, [] => []
  | fuel + 1, c :: cs =>
    match pathRest (c :: cs) with
    | some (path, rest) => path :: pathsFrom fuel rest
    | none => pathsFrom fuel cs

/-- The dotted paths of a body that is no expression. -/
def scanPaths (body : String) : List String :=
  let dotted := dotIndices (body.toList.length + 1) body.toList
  let plain := dropQuoted false dotted
  (pathsFrom (plain.length + 1) plain).map String.ofList

def tokens (body : String) : List String :=
  match Expression.parse? body with
  | some e => e.contexts
  | none => scanPaths body

end WorkflowAudit.Context
