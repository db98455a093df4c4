import WorkflowAudit.Text.Lowercase
import WorkflowAudit.Yaml.Value

/-!
Writing YAML in blocks. Text is written plain where that reads back as the same text, then between
single quotes, and between double quotes with escapes where a character needs one; text of several
lines is written as a literal block.
-/

namespace WorkflowAudit.Yaml

/-- Text that some reader could take for another kind of value. -/
def isAmbiguous (s : String) : Bool :=
  let lower := Text.lowercase s
  ["", "y", "yes", "true", "on", "n", "no", "false", "off", "null", "nil", "~"].contains lower ||
    lower.toList.head?.any Char.isDigit ||
    (match ofPlain? s with
     | some (.text _) => false
     | _ => true)

def isPrintable (c : Char) : Bool :=
  let n := c.toNat
  n = 0x0A || (0x20 ≤ n && n ≤ 0x7E) || (0xA0 ≤ n && n ≤ 0xFFFD && n ≠ 0xFEFF) || 0x10000 ≤ n

/-- Whether a sign stands where plain text can't hold it; `first` at the start of the text, `spaced`
after a blank. -/
def hasBlockSign (first spaced : Bool) : List Char → Bool
  | [] => false
  | c :: rest =>
    let followed := endsWord rest.head?
    (if first then
      ['#', ',', '[', ']', '\x7b', '\x7d', '&', '*', '!', '|', '>', '\'', '"', '%', '@',
        '`'].contains c || ((c = '?' || c = ':' || c = '-') && followed)
     else (c = ':' && followed) || (c = '#' && spaced)) ||
      hasBlockSign false (isBlank c || isBreak c) rest

def hasPair (p q : Char → Bool) : List Char → Bool
  | a :: b :: rest => (p a && q b) || hasPair p q (b :: rest)
  | _ => false

def plainAllowed (cs : List Char) : Bool :=
  !hasBlockSign true true cs && !isMarkerStart cs && cs.all isPrintable && !cs.any isBreak &&
    cs.head? ≠ some ' ' && cs.getLast? ≠ some ' '
where
  isMarkerStart : List Char → Bool
    | '-' :: '-' :: '-' :: _ => true
    | '.' :: '.' :: '.' :: _ => true
    | _ => false

def isSpaceChar (c : Char) : Bool := c = ' '

def singleAllowed (cs : List Char) : Bool :=
  cs.all isPrintable && !hasPair isBreak isSpaceChar cs && !hasPair isSpaceChar isBreak cs

def literalAllowed (cs : List Char) : Bool :=
  cs.all isPrintable && !hasPair isSpaceChar isBreak cs && cs.getLast? ≠ some ' '

def singleQuoted (cs : List Char) : List Char :=
  '\'' :: cs.flatMap (fun c => if c = '\'' then ['\'', '\''] else [c]) ++ ['\'']

def hexDigits (width n : Nat) : List Char :=
  let ds := (Nat.toDigits 16 n).map Char.toUpper
  List.replicate (width - ds.length) '0' ++ ds

def escapeChar (c : Char) : List Char :=
  match c.toNat with
  | 0 => ['\\', '0']
  | 7 => ['\\', 'a']
  | 8 => ['\\', 'b']
  | 9 => ['\\', 't']
  | 10 => ['\\', 'n']
  | 11 => ['\\', 'v']
  | 12 => ['\\', 'f']
  | 13 => ['\\', 'r']
  | 0x1b => ['\\', 'e']
  | 0x22 => ['\\', '"']
  | 0x5c => ['\\', '\\']
  | 0x85 => ['\\', 'N']
  | 0x2028 => ['\\', 'L']
  | 0x2029 => ['\\', 'P']
  | n =>
    if isPrintable c then [c]
    else if n ≤ 0xff then '\\' :: 'x' :: hexDigits 2 n
    else if n ≤ 0xffff then '\\' :: 'u' :: hexDigits 4 n
    else '\\' :: 'U' :: hexDigits 8 n

def doubleQuoted (cs : List Char) : List Char := '"' :: cs.flatMap escapeChar ++ ['"']

def inlineText (s : String) : String :=
  let cs := s.toList
  if !isAmbiguous s && plainAllowed cs then s
  else if singleAllowed cs && !cs.any isBreak then String.ofList (singleQuoted cs)
  else String.ofList (doubleQuoted cs)

def literalLines (s : String) : List String :=
  let cs := s.toList
  let hint := if cs.head?.any (fun c => c = ' ' || isBreak c) then "2" else ""
  let chomp :=
    if cs.getLast? ≠ some '\n' then "-"
    else if cs.length = 1 || (cs.dropLast).getLast? = some '\n' then "+"
    else ""
  let parts := Text.splitChars '\n' cs
  let parts := if parts.getLast? = some [] then parts.dropLast else parts
  ("|" ++ hint ++ chomp) :: parts.map String.ofList

def indented (line : String) : String := if line.isEmpty then line else "  " ++ line

/-- How a value is written: on one line, as a literal block, or as the lines of a collection. -/
inductive Layout where
  | inline (text : String)
  | literal (lines : List String)
  | sequence (lines : List String)
  | mapping (lines : List String)
  | tagged (tag : String) (isSequence : Bool) (lines : List String)

namespace Layout

def withTag (tag : String) : Layout → Layout
  | inline s => inline (tag ++ " " ++ s)
  | literal (first :: rest) => literal ((tag ++ " " ++ first) :: rest)
  | literal [] => inline tag
  | sequence ls => tagged tag true ls
  | mapping ls => tagged tag false ls
  | tagged t isSequence ls => tagged (tag ++ " " ++ t) isSequence ls

def after (sign : String) : Layout → List String
  | inline s => [sign ++ " " ++ s]
  | literal (first :: rest) => (sign ++ " " ++ first) :: rest.map indented
  | literal [] => [sign]
  | sequence (first :: rest) => (sign ++ " " ++ first) :: rest.map indented
  | mapping (first :: rest) => (sign ++ " " ++ first) :: rest.map indented
  | sequence [] => [sign ++ " []"]
  | mapping [] => [sign ++ " \x7b\x7d"]
  | tagged t _ ls => (sign ++ " " ++ t) :: ls.map indented

/-- The lines of an entry. The items of a sequence stand below the key without indentation. -/
def entry (key value : Layout) : List String :=
  match key with
  | inline k =>
    match value with
    | inline s => [k ++ ": " ++ s]
    | literal (first :: rest) => (k ++ ": " ++ first) :: rest.map indented
    | literal [] => [k ++ ":"]
    | sequence ls => (k ++ ":") :: ls
    | mapping ls => (k ++ ":") :: ls.map indented
    | tagged t isSequence ls => (k ++ ": " ++ t) :: (if isSequence then ls else ls.map indented)
  | k => k.after "?" ++ value.after ":"

def lines : Layout → List String
  | inline s => [s]
  | literal (first :: rest) => first :: rest.map indented
  | literal [] => []
  | sequence ls => ls
  | mapping ls => ls
  | tagged t _ ls => t :: ls

end Layout

mutual

def layout : Yaml → Layout
  | .null => .inline "null"
  | .bool b => .inline (if b then "true" else "false")
  | .number n => .inline n.display
  | .text s =>
    if s.toList.contains '\n' && literalAllowed s.toList then .literal (literalLines s)
    else .inline (inlineText s)
  | .sequence [] => .inline "[]"
  | .sequence vs => .sequence (itemLines vs)
  | .mapping [] => .inline "\x7b\x7d"
  | .mapping es => .mapping (entryLines es)
  | .tagged t v => (layout v).withTag ("!" ++ t)

def itemLines : List Yaml → List String
  | [] => []
  | v :: rest => (layout v).after "-" ++ itemLines rest

def entryLines : List (Yaml × Yaml) → List String
  | [] => []
  | (k, v) :: rest => (layout k).entry (layout v) ++ entryLines rest

end

def print (v : Yaml) : String := String.join ((layout v).lines.map (· ++ "\n"))

end WorkflowAudit.Yaml
