/-!
Text as a list of characters: blanks, trimming, comparison without regard to the case of ASCII
letters, cutting at a character, and search for a part.
-/

namespace WorkflowAudit.Text

/-- White space: the ASCII blanks and the spaces and line ends beyond ASCII. -/
def isBlank (c : Char) : Bool :=
  let n := c.toNat
  (9 ≤ n && n ≤ 13) || n = 0x20 || n = 0x85 || n = 0xA0 || n = 0x1680 ||
    (0x2000 ≤ n && n ≤ 0x200A) || n = 0x2028 || n = 0x2029 || n = 0x202F || n = 0x205F || n = 0x3000

def trimStartChars (cs : List Char) : List Char := cs.dropWhile isBlank

def trimEndChars (cs : List Char) : List Char := (cs.reverse.dropWhile isBlank).reverse

def trimChars (cs : List Char) : List Char := trimEndChars (trimStartChars cs)

def trim (s : String) : String := String.ofList (trimChars s.toList)

def isBlankText (s : String) : Bool := s.toList.all isBlank

/-- The text with its ASCII letters in lower case. -/
def fold (s : String) : String := String.ofList (s.toList.map Char.toLower)

/-- Equality up to the case of ASCII letters. -/
def sameIgnoringCase (a b : String) : Bool :=
  a.toList.map Char.toLower == b.toList.map Char.toLower

def afterFront : List Char → List Char → Option (List Char)
  | [], cs => some cs
  | _ :: _, [] => none
  | p :: ps, c :: cs => if p = c then afterFront ps cs else none

theorem afterFront_eq_some_iff (front cs rest : List Char) :
    afterFront front cs = some rest ↔ cs = front ++ rest := by
  induction front generalizing cs with
  | nil => simp [afterFront, eq_comm]
  | cons p front ih =>
    cases cs with
    | nil => simp [afterFront]
    | cons c cs =>
      by_cases h : p = c
      · subst h
        simp [afterFront, ih]
      · simp [afterFront, h, Ne.symm h]

def beforeBack (back cs : List Char) : Option (List Char) :=
  (afterFront back.reverse cs.reverse).map List.reverse

theorem beforeBack_eq_some_iff (back cs rest : List Char) :
    beforeBack back cs = some rest ↔ cs = rest ++ back := by
  simp only [beforeBack, Option.map_eq_some_iff, afterFront_eq_some_iff]
  constructor
  · rintro ⟨r, hr, rfl⟩
    simpa using congrArg List.reverse hr
  · rintro rfl
    exact ⟨rest.reverse, by simp, by simp⟩

def startsWith (front s : String) : Bool := (afterFront front.toList s.toList).isSome

def endsWith (back s : String) : Bool := (beforeBack back.toList s.toList).isSome

def dropFront (front s : String) : Option String :=
  (afterFront front.toList s.toList).map String.ofList

def dropBack (back s : String) : Option String :=
  (beforeBack back.toList s.toList).map String.ofList

def containsChars (part : List Char) : List Char → Bool
  | [] => part.isEmpty
  | c :: cs => (afterFront part (c :: cs)).isSome || containsChars part cs

def contains (part s : String) : Bool := containsChars part.toList s.toList

/-- The parts between the occurrences of `sep`; never empty. -/
def splitChars (sep : Char) : List Char → List (List Char)
  | [] => [[]]
  | c :: cs =>
    if c = sep then [] :: splitChars sep cs
    else match splitChars sep cs with
      | [] => [[c]]
      | part :: parts => (c :: part) :: parts

def split (sep : Char) (s : String) : List String :=
  (splitChars sep s.toList).map String.ofList

def cutFirstChars (sep : Char) : List Char → Option (List Char × List Char)
  | [] => none
  | c :: cs =>
    if c = sep then some ([], cs)
    else (cutFirstChars sep cs).map fun (before, after) => (c :: before, after)

def cutLastChars (sep : Char) (cs : List Char) : Option (List Char × List Char) :=
  (cutFirstChars sep cs.reverse).map fun (after, before) => (before.reverse, after.reverse)

def cutFirst (sep : Char) (s : String) : Option (String × String) :=
  (cutFirstChars sep s.toList).map fun (a, b) => (String.ofList a, String.ofList b)

def cutLast (sep : Char) (s : String) : Option (String × String) :=
  (cutLastChars sep s.toList).map fun (a, b) => (String.ofList a, String.ofList b)

/-- Replaces each occurrence of `part`, read from the left without overlaps; `skip` characters are
still covered by the last one. -/
def replaceFrom (part new : List Char) (skip : Nat) : List Char → List Char
  | [] => []
  | c :: cs =>
    match skip with
    | n + 1 => replaceFrom part new n cs
    | 0 =>
      if (afterFront part (c :: cs)).isSome then
        new ++ replaceFrom part new (part.length - 1) cs
      else c :: replaceFrom part new 0 cs

def replace (part new s : String) : String :=
  String.ofList (replaceFrom part.toList new.toList 0 s.toList)

def join (sep : String) : List String → String
  | [] => ""
  | [s] => s
  | s :: rest => s ++ sep ++ join sep rest

def ofNat (n : Nat) : String := String.ofList (Nat.toDigits 10 n)

def digitValue (c : Char) : Nat := c.toNat - '0'.toNat

def numeral (digits : List Char) : Nat := digits.foldl (fun n c => 10 * n + digitValue c) 0

end WorkflowAudit.Text
