import WorkflowAudit.Yaml.Cursor
import WorkflowAudit.Json.Reader

/-!
The text of scalars. Within plain and quoted text a line end is folded: it becomes a blank, or as
many line ends as there were empty lines after it. Block text keeps its lines, or folds those that
start without a blank.
-/

namespace WorkflowAudit.Yaml

inductive Style where
  | plain
  | quoted
  | literal
  | folded
  deriving DecidableEq, Repr

structure Gap where
  text : List Char
  broken : Bool
  cursor : Cursor

def foldBreaks (first others : List Char) : List Char :=
  if first.head? = some '\n' then (if others.isEmpty then [' '] else others) else first ++ others

/-- Reads a gap. Beyond a line end, a tab left of the column `limit` is an error. -/
def gapLoop (limit : Nat) : Nat → List Char → Bool → List Char → List Char → Cursor → Option Gap
  | 0, _, _, _, _, _ => none
  | fuel + 1, blanks, broken, first, others, c =>
    match c.head? with
    | none => some ⟨if broken then foldBreaks first others else blanks, broken, c⟩
    | some x =>
      if isBlank x then
        if broken then
          if c.column < limit && x = '\t' then none
          else gapLoop limit fuel blanks broken first others (c.advance 1)
        else gapLoop limit fuel (blanks ++ [x]) broken first others (c.advance 1)
      else if isBreak x then
        let (text, c) := c.newline
        if broken then gapLoop limit fuel blanks true first (others ++ text) c
        else gapLoop limit fuel [] true text others c
      else some ⟨if broken then foldBreaks first others else blanks, broken, c⟩

/-- A gap; `broken` says that an escaped line end stands before it. -/
def gap (limit : Nat) (broken : Bool) (c : Cursor) : Option Gap :=
  gapLoop limit (c.rest.length + 1) [] broken [] [] c

/-- A word of plain text. In a flow collection it ends at the signs of the collection, and a colon
directly before one of them is an error. -/
def plainWord (flow : Bool) : List Char → Option (List Char)
  | [] => some []
  | c :: cs =>
    if isBlank c || isBreak c then some []
    else if flow && c = ':' && [',', '?', '[', ']', '\x7b', '\x7d'].any (cs.head? = some ·) then
      none
    else if (c = ':' && endsWord cs.head?) ||
        (flow && (c = ',' || c = '[' || c = ']' || c = '\x7b' || c = '\x7d')) then some []
    else (plainWord flow cs).map (c :: ·)

/-- What a scalar reads: its text, the place after it, and whether a new line was begun there. -/
structure Read where
  text : List Char
  newLine : Bool
  cursor : Cursor

/-- Plain text of lines that are indented at least by `indent`. -/
def plainLoop (flow : Bool) (indent : Nat) :
    Nat → List Char → List Char → Bool → Cursor → Option Read
  | 0, _, _, _, _ => none
  | fuel + 1, text, pending, broken, c =>
    if c.atDocumentMarker || c.startsWith '#' then some ⟨text, broken, c⟩
    else
      match plainWord flow c.rest with
      | none => none
      | some word =>
        let (text, broken) :=
          if word.isEmpty then (text, broken) else (text ++ pending ++ word, false)
        let c := c.advance word.length
        match c.head? with
        | none => some ⟨text, broken, c⟩
        | some x =>
          if !isBlank x && !isBreak x then some ⟨text, broken, c⟩
          else
            match gap indent false c with
            | none => none
            | some g =>
              if !flow && g.cursor.column < indent then some ⟨text, g.broken || broken, g.cursor⟩
              else plainLoop flow indent fuel text g.text (g.broken || broken) g.cursor

def plain (flow : Bool) (indent : Nat) (c : Cursor) : Option Read :=
  plainLoop flow indent (c.rest.length + 1) [] [] false c

inductive Stop where
  | quote
  | blank
  | escapedBreak
  | ending
  deriving DecidableEq

structure Word where
  text : List Char
  length : Nat
  stop : Stop

def Word.cons (c : Char) (length : Nat) (w : Word) : Word :=
  { w with text := c :: w.text, length := w.length + length }

def singleQuotedWord : List Char → Word
  | [] => ⟨[], 0, .ending⟩
  | '\'' :: '\'' :: cs => (singleQuotedWord cs).cons '\'' 2
  | c :: cs =>
    if c = '\'' then ⟨[], 0, .quote⟩
    else if isBlank c || isBreak c then ⟨[], 0, .blank⟩
    else (singleQuotedWord cs).cons c 1

def escaped : Char → Option Char
  | '0' => some '\x00'
  | 'a' => some '\x07'
  | 'b' => some '\x08'
  | 't' => some '\t'
  | '\t' => some '\t'
  | 'n' => some '\n'
  | 'v' => some '\x0b'
  | 'f' => some '\x0c'
  | 'r' => some '\r'
  | 'e' => some '\x1b'
  | ' ' => some ' '
  | '"' => some '"'
  | '/' => some '/'
  | '\\' => some '\\'
  | 'N' => some (Char.ofNat 0x85)
  | '_' => some (Char.ofNat 0xA0)
  | 'L' => some (Char.ofNat 0x2028)
  | 'P' => some (Char.ofNat 0x2029)
  | _ => none

def hexChar (digits : List Char) : Option Char :=
  match digits.mapM Json.hexValue with
  | none => none
  | some ds =>
    let n := ds.foldl (fun n d => 16 * n + d) 0
    if n.isValidChar then some (Char.ofNat n) else none

def doubleQuotedWord : List Char → Option Word
  | [] => some ⟨[], 0, .ending⟩
  | '\\' :: 'x' :: a :: b :: cs =>
    match hexChar [a, b], doubleQuotedWord cs with
    | some c, some w => some (w.cons c 4)
    | _, _ => none
  | '\\' :: 'u' :: a :: b :: c :: d :: cs =>
    match hexChar [a, b, c, d], doubleQuotedWord cs with
    | some c, some w => some (w.cons c 6)
    | _, _ => none
  | '\\' :: 'U' :: a :: b :: c :: d :: e :: f :: g :: h :: cs =>
    match hexChar [a, b, c, d, e, f, g, h], doubleQuotedWord cs with
    | some c, some w => some (w.cons c 10)
    | _, _ => none
  | '\\' :: e :: cs =>
    if isBreak e then some ⟨[], 0, .escapedBreak⟩
    else
      match escaped e, doubleQuotedWord cs with
      | some c, some w => some (w.cons c 2)
      | _, _ => none
  | c :: cs =>
    if c = '"' then some ⟨[], 0, .quote⟩
    else if isBlank c || isBreak c then some ⟨[], 0, .blank⟩
    else if c = '\\' then none
    else (doubleQuotedWord cs).map (·.cons c 1)

def quotedLoop (single : Bool) : Nat → List Char → Cursor → Option Read
  | 0, _, _ => none
  | fuel + 1, text, c =>
    if c.atDocumentMarker then none
    else
      match if single then some (singleQuotedWord c.rest) else doubleQuotedWord c.rest with
      | none => none
      | some w =>
        let text := text ++ w.text
        let c := c.advance w.length
        match w.stop with
        | .ending => none
        | .quote => some ⟨text, false, c.advance 1⟩
        | .blank =>
          match gap 0 false c with
          | some g => quotedLoop single fuel (text ++ g.text) g.cursor
          | none => none
        | .escapedBreak =>
          match gap 0 true (c.advance 1).newline.2 with
          | some g => quotedLoop single fuel (text ++ g.text) g.cursor
          | none => none

def quoted (single : Bool) (c : Cursor) : Option Read :=
  quotedLoop single (c.rest.length + 1) [] c

/-- What becomes of the line ends after the last line of block text. -/
inductive Chomping where
  | strip
  | clip
  | keep
  deriving DecidableEq

def chomping? : Option Char → Option Chomping
  | some '+' => some .keep
  | some '-' => some .strip
  | _ => none

/-- The signs after a block indicator: chomping and the number of columns, in either order. -/
def blockHeader (c : Cursor) : Option (Chomping × Option Nat × Cursor) :=
  match chomping? c.head? with
  | some chomping =>
    let c := c.advance 1
    match c.head? with
    | some d =>
      if d = '0' then none
      else if d.isDigit then some (chomping, some (Text.digitValue d), c.advance 1)
      else some (chomping, none, c)
    | none => some (chomping, none, c)
  | none =>
    match c.head? with
    | some d =>
      if d = '0' then none
      else if d.isDigit then
        let c := c.advance 1
        match chomping? c.head? with
        | some chomping => some (chomping, some (Text.digitValue d), c.advance 1)
        | none => some (.clip, some (Text.digitValue d), c)
      else some (.clip, none, c)
    | none => some (.clip, none, c)

/-- Empty lines and the blanks of the next line, up to the column `indent` if it is known. Returns
the line ends, the widest column seen and the place. -/
def blockBreaks (indent : Option Nat) :
    Nat → List Char → Nat → Cursor → Option (List Char × Nat × Cursor)
  | 0, _, _, _ => none
  | fuel + 1, breaks, widest, c =>
    let blanks := (c.rest.takeWhile (· = ' ')).length
    let c := c.advance (match indent with | some n => min blanks (n - c.column) | none => blanks)
    let widest := max widest c.column
    let within := match indent with | some n => c.column < n | none => true
    if within && c.startsWith '\t' then none
    else if endsLine c.head? && c.head?.isSome then
      let (text, c) := c.newline
      blockBreaks indent fuel (breaks ++ text) widest c
    else some (breaks, widest, c)

/-- The lines of block text at the column `indent`. `last` is the line end after the text so far,
`breaks` the empty lines after that, and `blank` says that the line before started with a blank. -/
def blockLines (literal : Bool) (indent : Nat) :
    Nat → List Char → List Char → List Char → Bool → Cursor →
      Option (List Char × List Char × List Char × Cursor)
  | 0, _, _, _, _, _ => none
  | fuel + 1, text, last, breaks, blank, c =>
    if c.column ≠ indent || c.rest.isEmpty then some (text, last, breaks, c)
    else
      let startsBlank := c.head?.any isBlank
      let joint :=
        if !literal && last.head? = some '\n' && !blank && !startsBlank then
          (if breaks.isEmpty then [' '] else [])
        else last
      let line := c.rest.takeWhile fun x => !isBreak x
      let (next, c) := (c.advance line.length).newline
      match blockBreaks (some indent) (c.rest.length + 1) [] 0 c with
      | none => none
      | some (more, _, c) =>
        blockLines literal indent fuel (text ++ joint ++ breaks ++ line) next more startsBlank c

/-- Block text after its indicator, within a block that is indented by `outer`. -/
def block (literal : Bool) (outer : Int) (c : Cursor) : Option Read :=
  match blockHeader c with
  | none => none
  | some (chomping, columns, c) =>
    let c := c.skipWhile isBlank
    let c := if c.startsWith '#' then c.skipWhile (fun x => !isBreak x) else c
    if !endsLine c.head? then none
    else
      let c := c.newline.2
      let given := columns.map fun n => (if 0 ≤ outer then outer.toNat + n else n)
      match blockBreaks given (c.rest.length + 1) [] 0 c with
      | none => none
      | some (breaks, widest, c) =>
        let indent := given.getD (max widest (max (outer + 1).toNat 1))
        match blockLines literal indent (c.rest.length + 2) [] [] breaks false c with
        | none => none
        | some (text, last, breaks, c) =>
          let ending := match chomping with
            | .strip => []
            | .clip => last
            | .keep => last ++ breaks
          some ⟨text ++ ending, false, c⟩

end WorkflowAudit.Yaml
