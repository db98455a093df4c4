import WorkflowAudit.Yaml.Scalar

/-!
The tokens of a YAML text. Blocks are given by indentation: a deeper column opens a block, a
shallower one closes it. A key without a question mark is recognised at the colon after it, so its
tokens are put in front of what was read since; until then the place where a key could have begun
is remembered.
-/

namespace WorkflowAudit.Yaml

inductive Token where
  | streamEnd
  | version (major minor : Nat)
  | tagHandle (handle expansion : String)
  | documentStart
  | documentEnd
  | blockSequence
  | blockMapping
  | blockEnd
  | flowSequence
  | flowSequenceEnd
  | flowMapping
  | flowMappingEnd
  | blockEntry
  | flowEntry
  | key
  | value
  | alias (name : String)
  | anchor (name : String)
  | tag (handle suffix : String)
  | scalar (text : String) (style : Style)
  deriving DecidableEq, Repr

namespace Token

structure Candidate where
  required : Bool
  position : Nat
  index : Nat
  line : Nat
  column : Nat

structure Scanner where
  cursor : Cursor
  /-- The tokens so far, the last one first. -/
  tokens : List Token
  /-- The column of the block, and those of the blocks around it. -/
  indent : Int
  outer : List Int
  keyAllowed : Bool
  /-- The candidates of the open flow collections, the innermost first, and of the block around
  them. -/
  candidates : List (Option Candidate)

namespace Scanner

def start (cs : List Char) : Scanner := ⟨Cursor.start cs, [], -1, [], true, [none]⟩

def inFlow (s : Scanner) : Bool := 1 < s.candidates.length

def push (s : Scanner) (t : Token) : Scanner := { s with tokens := t :: s.tokens }

def insert (s : Scanner) (position : Nat) (t : Token) : Scanner :=
  let later := s.tokens.length - position
  { s with tokens := s.tokens.take later ++ t :: s.tokens.drop later }

def at_ (s : Scanner) (c : Cursor) : Scanner := { s with cursor := c }

def advance (s : Scanner) (n : Nat) : Scanner := s.at_ (s.cursor.advance n)

/-- A candidate is given up on a later line, or after 1024 characters. -/
def isStale (c : Cursor) (k : Candidate) : Bool := k.line < c.line || k.index + 1024 < c.index

def dropStale (s : Scanner) : Option Scanner :=
  let stale (k : Option Candidate) := k.any (isStale s.cursor)
  if s.candidates.any fun k => stale k && k.any (·.required) then none
  else some { s with candidates := s.candidates.map fun k => if stale k then none else k }

/-- Gives up the innermost candidate. -/
def dropCandidate (s : Scanner) : Option Scanner :=
  match s.candidates with
  | [] => some s
  | k :: rest => if k.any (·.required) then none else some { s with candidates := none :: rest }

/-- Remembers the place as a candidate where a key may begin. -/
def saveCandidate (s : Scanner) : Option Scanner :=
  if s.keyAllowed then
    match s.dropCandidate with
    | none => none
    | some s =>
      let k : Candidate :=
        ⟨!s.inFlow && s.indent = s.cursor.column, s.tokens.length, s.cursor.index, s.cursor.line,
          s.cursor.column⟩
      some { s with candidates := some k :: s.candidates.tail }
  else some s

/-- Opens a block at a deeper column; its token goes behind the first `position` ones. -/
def openBlock (s : Scanner) (column position : Nat) (t : Token) : Scanner :=
  if !s.inFlow && s.indent < column then
    { s with indent := column, outer := s.indent :: s.outer }.insert position t
  else s

def closeBlocks (s : Scanner) (column : Int) : Scanner :=
  if s.inFlow then s else closing s.outer s.indent s.tokens
where
  closing : List Int → Int → List Token → Scanner
    | [], indent, tokens => { s with outer := [], indent := indent, tokens := tokens }
    | i :: rest, indent, tokens =>
      if column < indent then closing rest i (.blockEnd :: tokens)
      else { s with outer := i :: rest, indent := indent, tokens := tokens }

def skipToToken : Nat → Scanner → Scanner
  | 0, s => s
  | fuel + 1, s =>
    let c := s.cursor
    let c := if c.index = 0 && c.head? = some (Char.ofNat 0xFEFF) then c.advance 1 else c
    let tabs := s.inFlow || !s.keyAllowed
    let c := c.skipWhile fun x => x = ' ' || (tabs && x = '\t')
    let c := if c.startsWith '#' then c.skipWhile (fun x => !isBreak x) else c
    if c.head?.any isBreak then
      skipToToken fuel { s with cursor := c.newline.2, keyAllowed := s.keyAllowed || !s.inFlow }
    else s.at_ c

def fixed (s : Scanner) (width : Nat) (keyAllowed : Bool) (t : Token) : Scanner :=
  ({ s with keyAllowed := keyAllowed }.advance width).push t

def documentMarker (s : Scanner) (t : Token) : Option Scanner :=
  (s.closeBlocks (-1)).dropCandidate.map fun s => s.fixed 3 false t

def openFlow (s : Scanner) (t : Token) : Option Scanner :=
  s.saveCandidate.map fun s =>
    { s with candidates := none :: s.candidates }.fixed 1 true t

def closeFlow (s : Scanner) (t : Token) : Option Scanner :=
  s.dropCandidate.map fun s =>
    { s with candidates := if s.inFlow then s.candidates.tail else s.candidates }.fixed 1 false t

def blockEntry (s : Scanner) : Option Scanner :=
  if !s.inFlow && !s.keyAllowed then none
  else
    (s.openBlock s.cursor.column s.tokens.length .blockSequence).dropCandidate.map fun s =>
      s.fixed 1 true .blockEntry

def explicitKey (s : Scanner) : Option Scanner :=
  if !s.inFlow && !s.keyAllowed then none
  else
    (s.openBlock s.cursor.column s.tokens.length .blockMapping).dropCandidate.map fun s =>
      s.fixed 1 (!s.inFlow) .key

/-- A colon: the value of the key that began at the candidate, or of one with a question mark. -/
def value (s : Scanner) : Option Scanner :=
  match s.candidates with
  | some k :: rest =>
    let s := (s.insert k.position .key).openBlock k.column k.position .blockMapping
    some ({ s with candidates := none :: rest }.fixed 1 false .value)
  | _ =>
    if !s.inFlow && !s.keyAllowed then none
    else
      some ((s.openBlock s.cursor.column s.tokens.length .blockMapping).fixed 1 (!s.inFlow) .value)

def anchorName (s : Scanner) (make : String → Token) : Option Scanner :=
  s.saveCandidate.bind fun s =>
    let rest := s.cursor.rest.drop 1
    let name := rest.takeWhile isNameChar
    let after := (rest.drop name.length).head?
    let ended := endsWord after ||
      ['?', ':', ',', ']', '\x7d', '%', '@', '`'].any fun x => after = some x
    if name.isEmpty || !ended then none
    else some (s.fixed (name.length + 1) false (make (String.ofList name)))

/-- The characters of a tag; a verbatim one may hold the signs of flow collections as well. -/
def isTagChar (verbatim : Bool) (c : Char) : Bool :=
  isNameChar c || [';', '/', '?', ':', '@', '&', '=', '+', '$', '.', '%', '!', '~', '*', '\'', '(',
    ')'].contains c || (verbatim && [',', '[', ']'].contains c)

/-- The number of bytes in the encoding that a first byte opens. -/
def encodedLength (byte : Nat) : Option Nat :=
  if byte < 0x80 then some 1
  else if byte / 32 = 6 then some 2
  else if byte / 16 = 14 then some 3
  else if byte / 8 = 30 then some 4
  else none

def continuation : Nat → Nat → List Char → Option (Nat × List Char)
  | 0, n, cs => some (n, cs)
  | count + 1, n, '%' :: a :: b :: cs =>
    match Json.hexValue a, Json.hexValue b with
    | some a, some b =>
      if (16 * a + b) / 64 = 2 then continuation count (64 * n + (16 * a + b) % 64) cs else none
    | _, _ => none
  | _, _, _ => none

def decodeTag : Nat → List Char → Option (List Char)
  | 0, _ => none
  | _ + 1, [] => some []
  | fuel + 1, '%' :: a :: b :: cs =>
    match Json.hexValue a, Json.hexValue b with
    | some a, some b =>
      let byte := 16 * a + b
      match encodedLength byte with
      | none => none
      | some length =>
        let lead := match length with
          | 1 => byte
          | 2 => byte % 32
          | 3 => byte % 16
          | _ => byte % 8
        match continuation (length - 1) lead cs with
        | none => none
        | some (n, cs) => (decodeTag fuel cs).map (Char.ofNat n :: ·)
    | _, _ => none
  | fuel + 1, c :: cs => if c = '%' then none else (decodeTag fuel cs).map (c :: ·)

def tagText (verbatim : Bool) (cs : List Char) : Option (List Char × Nat) :=
  let written := cs.takeWhile (isTagChar verbatim)
  (decodeTag (written.length + 1) written).map (·, written.length)

/-- A handle: an exclamation mark, a name and perhaps another mark. -/
def tagHandleText (cs : List Char) : Option (List Char) :=
  match cs with
  | '!' :: rest =>
    let name := rest.takeWhile isNameChar
    match rest.drop name.length with
    | '!' :: _ => some ('!' :: name ++ ['!'])
    | _ => some ('!' :: name)
  | _ => none

def tagParts (cs : List Char) : Option (List Char × List Char × Nat) :=
  match cs with
  | '!' :: '<' :: rest =>
    match tagText true rest with
    | some (text, n) =>
      if text.isEmpty || (rest.drop n).head? ≠ some '>' then none else some ([], text, n + 3)
    | none => none
  | _ =>
    match tagHandleText cs with
    | none => none
    | some handle =>
      match tagText false (cs.drop handle.length) with
      | none => none
      | some (text, n) =>
        if 1 < handle.length && handle.getLast? = some '!' then
          if text.isEmpty then none else some (handle, text, handle.length + n)
        else
          let suffix := handle.drop 1 ++ text
          if suffix.isEmpty then some ([], ['!'], handle.length + n)
          else some (['!'], suffix, handle.length + n)

def tagToken (s : Scanner) : Option Scanner :=
  s.saveCandidate.bind fun s =>
    match tagParts s.cursor.rest with
    | none => none
    | some (handle, suffix, n) =>
      let after := (s.cursor.rest.drop n).head?
      if endsWord after || (s.inFlow && after = some ',') then
        some (s.fixed n false (.tag (String.ofList handle) (String.ofList suffix)))
      else none

def scalarToken (s : Scanner) (keyAllowed : Bool) (style : Style) (r : Read) : Scanner :=
  { s with cursor := r.cursor, keyAllowed := keyAllowed || r.newLine }.push
    (.scalar (String.ofList r.text) style)

def blockScalar (s : Scanner) (literal : Bool) : Option Scanner :=
  s.dropCandidate.bind fun s =>
    (block literal s.indent (s.cursor.advance 1)).map
      (s.scalarToken true (if literal then .literal else .folded))

def quotedScalar (s : Scanner) (single : Bool) : Option Scanner :=
  s.saveCandidate.bind fun s =>
    (quoted single (s.cursor.advance 1)).map (s.scalarToken false .quoted)

def plainScalar (s : Scanner) : Option Scanner :=
  s.saveCandidate.bind fun s =>
    (plain s.inFlow (s.indent + 1).toNat s.cursor).map (s.scalarToken false .plain)

def versionNumber (cs : List Char) : Option (Nat × List Char) :=
  let digits := cs.takeWhile Char.isDigit
  if digits.isEmpty || 9 < digits.length then none
  else some (Text.numeral digits, cs.drop digits.length)

def versionDirective (cs : List Char) : Option (Token × List Char) :=
  match versionNumber (cs.dropWhile isBlank) with
  | some (major, '.' :: rest) =>
    (versionNumber rest).map fun (minor, rest) => (.version major minor, rest)
  | _ => none

def handleDirective (cs : List Char) : Option (Token × List Char) :=
  let cs := cs.dropWhile isBlank
  match tagHandleText cs with
  | none => none
  | some handle =>
    let rest := cs.drop handle.length
    if (handle.getLast? ≠ some '!') || !rest.head?.any isBlank then none
    else
      let rest := rest.dropWhile isBlank
      match tagText true rest with
      | some (text, n) =>
        if text.isEmpty || !endsWord (rest.drop n).head? then none
        else some (.tagHandle (String.ofList handle) (String.ofList text), rest.drop n)
      | none => none

/-- A line that begins with a percent sign: the version, or what a handle stands for. -/
def directive (s : Scanner) : Option Scanner :=
  (s.closeBlocks (-1)).dropCandidate.bind fun s =>
    let body := s.cursor.rest.drop 1
    let name := body.takeWhile isNameChar
    let rest := body.drop name.length
    if !endsWord rest.head? then none
    else
      let read :=
        if String.ofList name = "YAML" then versionDirective rest
        else if String.ofList name = "TAG" then handleDirective rest
        else none
      match read with
      | none => none
      | some (t, rest) =>
        let c := s.cursor.advance (s.cursor.rest.length - rest.length)
        let c := c.skipWhile isBlank
        let c := if c.startsWith '#' then c.skipWhile (fun x => !isBreak x) else c
        if endsLine c.head? then
          some ({ s with cursor := c.newline.2, keyAllowed := false }.push t)
        else none

def isIndicator (c : Char) : Bool :=
  ['-', '?', ':', ',', '[', ']', '\x7b', '\x7d', '#', '&', '*', '!', '|', '>', '\'', '"', '%', '@',
    '`'].contains c

/-- Plain text may begin with a dash before anything but a blank and, outside of flow collections,
with a question mark or colon before anything but a blank or line end. -/
def startsPlain (flow : Bool) (c : Char) (second : Option Char) : Bool :=
  (!isIndicator c && !isBlank c && !isBreak c) || (c = '-' && !second.any isBlank) ||
    (!flow && (c = '?' || c = ':') && !endsWord second)

def tokenFrom (s : Scanner) (c : Char) : Option Scanner :=
  let second := s.cursor.second?
  if s.cursor.column = 0 && c = '%' then s.directive
  else if s.cursor.column = 0 && isMarker '-' s.cursor.rest then s.documentMarker .documentStart
  else if s.cursor.column = 0 && isMarker '.' s.cursor.rest then s.documentMarker .documentEnd
  else if c = '[' then s.openFlow .flowSequence
  else if c = '\x7b' then s.openFlow .flowMapping
  else if c = ']' then s.closeFlow .flowSequenceEnd
  else if c = '\x7d' then s.closeFlow .flowMappingEnd
  else if c = ',' then s.dropCandidate.map (·.fixed 1 true .flowEntry)
  else if c = '-' && endsWord second then s.blockEntry
  else if c = '?' && (s.inFlow || endsWord second) then s.explicitKey
  else if c = ':' && (s.inFlow || endsWord second) then s.value
  else if c = '*' then s.anchorName .alias
  else if c = '&' then s.anchorName .anchor
  else if c = '!' then s.tagToken
  else if c = '|' && !s.inFlow then s.blockScalar true
  else if c = '>' && !s.inFlow then s.blockScalar false
  else if c = '\'' then s.quotedScalar true
  else if c = '"' then s.quotedScalar false
  else if startsPlain s.inFlow c second then s.plainScalar
  else none

/-- Every token takes at least one character. -/
def run : Nat → Scanner → Option (List Token)
  | 0, _ => none
  | fuel + 1, s =>
    match (skipToToken (s.cursor.rest.length + 1) s).dropStale with
    | none => none
    | some s =>
      let s := s.closeBlocks s.cursor.column
      match s.cursor.head? with
      | none =>
        (s.closeBlocks (-1)).dropCandidate.map fun s => (Token.streamEnd :: s.tokens).reverse
      | some c =>
        match s.tokenFrom c with
        | none => none
        | some s => run fuel s

end Scanner

def ofChars? (cs : List Char) : Option (List Token) :=
  if cs.all isAllowed then Scanner.run (cs.length + 2) (Scanner.start cs) else none

end Token

end WorkflowAudit.Yaml
