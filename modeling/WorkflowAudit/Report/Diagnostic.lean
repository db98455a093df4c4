import WorkflowAudit.Text.Basic

/-!
Diagnostics: a title with a level, and notes below it. Escape sequences for color are part of the
text and are taken out again where color is not wanted.
-/

namespace WorkflowAudit.Report

def escape (code : String) : String := String.ofList ['\x1b', '['] ++ code ++ "m"

/-- Text between an escape sequence and the one that ends it. -/
def styled (codes : List String) (ending text : String) : String :=
  if text.isEmpty then "" else String.join (codes.map escape) ++ text ++ escape ending

inductive Level where
  | error
  | warning
  deriving DecidableEq, Repr

def Level.label : Level → String
  | .error => "error"
  | .warning => "warning"

def Level.color : Level → String
  | .error => "91"
  | .warning => "33"

structure Diagnostic where
  level : Level
  id : Option String
  title : String
  notes : List String
  deriving Repr

/-- What stands for a character that a terminal might act on. -/
def visible (c : Char) : List Char :=
  let n := c.toNat
  if c = '\n' then [c]
  else if c = '\t' then [' ', ' ', ' ', ' ']
  else if n < 0x20 then [Char.ofNat (0x2400 + n)]
  else if n = 0x7F then [Char.ofNat 0x2421]
  else if n = 0x200D then []
  else if (0x202A ≤ n && n ≤ 0x202E) || (0x2066 ≤ n && n ≤ 0x2069) then [Char.ofNat 0xFFFD]
  else [c]

def bold (text : String) : String := styled ["1"] "0" text

/-- The first line of a text behind `front`, and the others behind a margin. -/
def hanging (front : String → String) (margin : Nat) (style : String → String) (text : String) :
    String :=
  match Text.split '\n' text with
  | [] => front ""
  | first :: rest =>
    front first ++ String.join (rest.map fun l =>
      "\n" ++ String.ofList (List.replicate margin ' ') ++ style l)

namespace Diagnostic

def label (d : Diagnostic) : String :=
  d.level.label ++ (match d.id with | some id => "[" ++ id ++ "]" | none => "")

def titleLines (d : Diagnostic) : String :=
  hanging (fun first => styled ["1", d.level.color] "0" d.label ++ bold (": " ++ first))
    (d.label.length + 2) bold (String.ofList (d.title.toList.flatMap visible))

def noteLines (note : String) : String :=
  hanging (fun first => " " ++ styled ["1", "94"] "0" "= " ++ bold "note" ++ ": " ++ first)
    9 (fun l => l) note

/-- The diagnostic with color, one line to the title and to each note, without a final line end. -/
def render (d : Diagnostic) : String :=
  String.intercalate "\n"
    (d.titleLines :: (" " ++ styled ["1", "94"] "0" "|") :: d.notes.map noteLines)

end Diagnostic

inductive Escape where
  | none
  | escape
  | control
  /-- A string that ends with a bell or with an escaped backslash. -/
  | string
  deriving DecidableEq

/-- Takes out escape sequences, and control characters other than blanks. -/
def stripFrom (state : Escape) : List Char → List Char
  | [] => []
  | c :: cs =>
    let n := c.toNat
    if n = 0x1b then stripFrom .escape cs
    else match state with
      | .none =>
        if (n < 0x20 && n ≠ 9 && n ≠ 10 && n ≠ 12 && n ≠ 13) || n = 0x7f then stripFrom .none cs
        else c :: stripFrom .none cs
      | .escape =>
        if c = '[' then stripFrom .control cs
        else if c = ']' || c = 'P' || c = 'X' || c = '^' || c = '_' then stripFrom .string cs
        else if 0x20 ≤ n && n ≤ 0x2f then stripFrom .escape cs
        else stripFrom .none cs
      | .control => if 0x40 ≤ n && n ≤ 0x7e then stripFrom .none cs else stripFrom .control cs
      | .string => if n = 7 then stripFrom .none cs else stripFrom .string cs

def strip (s : String) : String := String.ofList (stripFrom .none s.toList)

end WorkflowAudit.Report
