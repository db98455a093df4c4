import WorkflowAudit.Binary64.Decimal
import WorkflowAudit.Text.Basic

/-!
The words of an expression. Blanks separate words and mean nothing else; a name directly before an
opening parenthesis is the name of a function, and the two form one word.
-/

namespace WorkflowAudit.Expression

inductive Token where
  | or
  | and
  | equal
  | notEqual
  | not
  | opening
  | closing
  | comma
  | number (value : Binary64)
  | text (s : String)
  | name (s : String)
  | call (function : String)
  deriving DecidableEq, Repr

namespace Token

def isSpace (c : Char) : Bool := c = ' ' || c = '\t' || c = '\r' || c = '\n'

def startsName (c : Char) : Bool := c.isAlpha || c = '_' || c = '.'

def continuesName (c : Char) : Bool := c.isAlphanum || c = '-' || c = '_' || c = '.' || c = '*'

/-- The text up to the closing quote, where a quote within is written twice. -/
def quotedRest : List Char → Option (List Char × List Char)
  | [] => none
  | '\'' :: '\'' :: cs => (quotedRest cs).map fun (s, rest) => ('\'' :: s, rest)
  | c :: cs =>
    if c = '\'' then some ([], cs) else (quotedRest cs).map fun (s, rest) => (c :: s, rest)

/-- A number with the digits after its point, if digits follow the point. -/
def numberRest (cs : List Char) : Binary64 × List Char :=
  let whole := cs.takeWhile Char.isDigit
  let rest := cs.dropWhile Char.isDigit
  match rest with
  | '.' :: after =>
    let fraction := after.takeWhile Char.isDigit
    if fraction.isEmpty then (Binary64.ofDecimal false (Text.numeral whole) 0, rest)
    else
      (Binary64.ofDecimal false (Text.numeral (whole ++ fraction)) (-fraction.length),
        after.dropWhile Char.isDigit)
  | _ => (Binary64.ofDecimal false (Text.numeral whole) 0, rest)

def nameRest (cs : List Char) : Token × List Char :=
  let s := String.ofList (cs.takeWhile continuesName)
  match cs.dropWhile continuesName with
  | '(' :: rest => (.call s, rest)
  | rest => (.name s, rest)

def next : List Char → Option (Token × List Char)
  | '|' :: '|' :: cs => some (.or, cs)
  | '&' :: '&' :: cs => some (.and, cs)
  | '=' :: '=' :: cs => some (.equal, cs)
  | '!' :: '=' :: cs => some (.notEqual, cs)
  | '!' :: cs => some (.not, cs)
  | '(' :: cs => some (.opening, cs)
  | ')' :: cs => some (.closing, cs)
  | ',' :: cs => some (.comma, cs)
  | '\'' :: cs => (quotedRest cs).map fun (s, rest) => (.text (String.ofList s), rest)
  | c :: cs =>
    if c.isDigit then
      let (x, rest) := numberRest (c :: cs)
      some (.number x, rest)
    else if startsName c then some (nameRest (c :: cs))
    else none
  | [] => none

/-- Every word takes at least one character, so the length of the text bounds their number. -/
def scan : Nat → List Char → Option (List Token)
  | 0, _ => none
  | fuel + 1, cs =>
    match cs.dropWhile isSpace with
    | [] => some []
    | rest =>
      match next rest with
      | some (t, rest) => (scan fuel rest).map (t :: ·)
      | none => none

def ofChars (cs : List Char) : Option (List Token) := scan (cs.length + 1) cs

end Token

end WorkflowAudit.Expression
