import WorkflowAudit.Json.Basic

/-!
Reading JSON text. Numbers beyond 64 bits, or with a point or an exponent, are floating point; their
value is the first digits that fit 64 bits, scaled by one rounded power of ten.
-/

namespace WorkflowAudit.Json

def isSpace (c : Char) : Bool := c = ' ' || c = '\n' || c = '\t' || c = '\r'

def skipSpace (cs : List Char) : List Char := cs.dropWhile isSpace

def hexValue (c : Char) : Option Nat :=
  if c.isDigit then some (c.toNat - 48)
  else if 'a' ≤ c && c ≤ 'f' then some (c.toNat - 87)
  else if 'A' ≤ c && c ≤ 'F' then some (c.toNat - 55)
  else none

def fourHex : List Char → Option (Nat × List Char)
  | a :: b :: c :: d :: rest => do
    let a ← hexValue a
    let b ← hexValue b
    let c ← hexValue c
    let d ← hexValue d
    some (((a * 16 + b) * 16 + c) * 16 + d, rest)
  | _ => none

/-- The character of a `\u` escape, whose two halves must form a pair when it lies beyond 16 bits.
-/
def escapedUnit (cs : List Char) : Option (Char × List Char) :=
  match fourHex cs with
  | none => none
  | some (n, rest) =>
    if 0xDC00 ≤ n && n ≤ 0xDFFF then none
    else if 0xD800 ≤ n && n ≤ 0xDBFF then
      match rest with
      | '\\' :: 'u' :: rest =>
        match fourHex rest with
        | some (m, rest) =>
          if 0xDC00 ≤ m && m ≤ 0xDFFF then
            some (Char.ofNat (0x10000 + (n - 0xD800) * 1024 + (m - 0xDC00)), rest)
          else none
        | none => none
      | _ => none
    else some (Char.ofNat n, rest)

def simpleEscape : Char → Option Char
  | '"' => some '"'
  | '\\' => some '\\'
  | '/' => some '/'
  | 'b' => some '\x08'
  | 'f' => some '\x0c'
  | 'n' => some '\n'
  | 'r' => some '\r'
  | 't' => some '\t'
  | _ => none

/-- The rest of a string after its opening quote; `done` holds what was read, in reverse. -/
def stringRest : Nat → List Char → List Char → Option (String × List Char)
  | 0, _, _ => none
  | fuel + 1, done, cs =>
    match cs with
    | '"' :: rest => some (String.ofList done.reverse, rest)
    | '\\' :: 'u' :: rest =>
      match escapedUnit rest with
      | some (c, rest) => stringRest fuel (c :: done) rest
      | none => none
    | '\\' :: e :: rest =>
      match simpleEscape e with
      | some c => stringRest fuel (c :: done) rest
      | none => none
    | c :: rest => if c.toNat < 0x20 || c = '\\' then none else stringRest fuel (c :: done) rest
    | [] => none

def word64 : Nat := Nat.pow 2 64

/-- Takes digits while the number fits 64 bits. Returns it, how many digits it took and the rest. -/
def takeDigits (n count : Nat) : List Char → Nat × Nat × List Char
  | [] => (n, count, [])
  | c :: cs =>
    if c.isDigit && 10 * n + Text.digitValue c < word64 then
      takeDigits (10 * n + Text.digitValue c) (count + 1) cs
    else (n, count, c :: cs)

/-- Scales by a power of ten, in steps of 308 when it is far below the least number. -/
def scaleBy : Nat → Binary64 → Int → Option Binary64
  | 0, x, _ => some x
  | fuel + 1, x, e =>
    if 0 ≤ e then
      if e ≤ 308 then
        let y := x.timesPowerOfTen e.toNat
        if y.isFinite then some y else none
      else if x.isZero then some x
      else none
    else if -308 ≤ e then some (x.overPowerOfTen (-e).toNat)
    else if x.isZero then some x
    else scaleBy fuel (x.overPowerOfTen 308) (e + 308)

def real (negative : Bool) (significand : Nat) (exponent : Int) : Option Numeral :=
  (scaleBy 4 (Binary64.ofNat significand) exponent).map fun x =>
    .real (if negative then x.negate else x)

/-- The exponent after its letter. One beyond 32 bits is out of range, unless the number is zero or
the exponent is negative. -/
def exponentRest (negative : Bool) (significand : Nat) (start : Int) (cs : List Char) :
    Option (Numeral × List Char) :=
  let (down, digits) := match cs with
    | '+' :: r => (false, r)
    | '-' :: r => (true, r)
    | r => (false, r)
  let spelled := digits.takeWhile Char.isDigit
  let rest := digits.dropWhile Char.isDigit
  if spelled.isEmpty then none
  else
    let n := Text.numeral spelled
    if Nat.pow 2 31 ≤ n then
      if significand ≠ 0 && !down then none else some (.real (Binary64.zero negative), rest)
    else (real negative significand (if down then start - n else start + n)).map (·, rest)

/-- The number once its digits were taken: `exponent` counts the whole digits left out. -/
def afterDigits (negative : Bool) (significand : Nat) (exponent : Int) (cs : List Char) :
    Option (Numeral × List Char) :=
  match cs with
  | 'e' :: r => exponentRest negative significand exponent r
  | 'E' :: r => exponentRest negative significand exponent r
  | r => (real negative significand exponent).map (·, r)

def fractionRest (negative : Bool) (significand : Nat) (exponent : Int) (cs : List Char) :
    Option (Numeral × List Char) :=
  let (n, count, rest) := takeDigits significand 0 cs
  let dropped := rest.takeWhile Char.isDigit
  if count = 0 && dropped.isEmpty then none
  else afterDigits negative n (exponent - count) (rest.dropWhile Char.isDigit)

def numberRest (negative : Bool) (cs : List Char) : Option (Numeral × List Char) :=
  match cs with
  | '0' :: d :: _ => if d.isDigit then none else whole
  | _ => whole
where
  whole :=
    let (n, count, rest) := takeDigits 0 0 cs
    let dropped := rest.takeWhile Char.isDigit
    if count = 0 then none
    else match dropped, rest.dropWhile Char.isDigit with
      | [], '.' :: r => fractionRest negative n 0 r
      | [], 'e' :: r => exponentRest negative n 0 r
      | [], 'E' :: r => exponentRest negative n 0 r
      | [], r =>
        if !negative then some (.natural n, r)
        else if n = 0 || Nat.pow 2 63 < n then some (.real (Binary64.ofNat n).negate, r)
        else some (.negative n, r)
      | _, '.' :: r => fractionRest negative n dropped.length r
      | _, r => afterDigits negative n dropped.length r

mutual

/-- A value with nothing but its own text read; `depth` counts the levels that may still open. -/
def valueRest : Nat → Nat → List Char → Option (Json × List Char)
  | 0, _, _ => none
  | fuel + 1, depth, cs =>
    match skipSpace cs with
    | 'n' :: 'u' :: 'l' :: 'l' :: r => some (.null, r)
    | 't' :: 'r' :: 'u' :: 'e' :: r => some (.bool true, r)
    | 'f' :: 'a' :: 'l' :: 's' :: 'e' :: r => some (.bool false, r)
    | '"' :: r => (stringRest (r.length + 1) [] r).map fun (s, r) => (.text s, r)
    | '-' :: r => (numberRest true r).map fun (n, r) => (.number n, r)
    | '[' :: r =>
      if depth ≤ 1 then none
      else match skipSpace r with
        | ']' :: r => some (.array [], r)
        | r => (itemsRest fuel (depth - 1) r).map fun (items, r) => (.array items, r)
    | '\x7b' :: r =>
      if depth ≤ 1 then none
      else match skipSpace r with
        | '\x7d' :: r => some (.object [], r)
        | r => (membersRest fuel (depth - 1) r).map fun (fields, r) => (ofList fields, r)
    | c :: r =>
      if c.isDigit then (numberRest false (c :: r)).map fun (n, r) => (.number n, r) else none
    | [] => none

def itemsRest : Nat → Nat → List Char → Option (List Json × List Char)
  | 0, _, _ => none
  | fuel + 1, depth, cs =>
    match valueRest fuel depth cs with
    | none => none
    | some (v, r) =>
      match skipSpace r with
      | ',' :: r => (itemsRest fuel depth r).map fun (items, r) => (v :: items, r)
      | ']' :: r => some ([v], r)
      | _ => none

def membersRest : Nat → Nat → List Char → Option (List (String × Json) × List Char)
  | 0, _, _ => none
  | fuel + 1, depth, cs =>
    match skipSpace cs with
    | '"' :: r =>
      match stringRest (r.length + 1) [] r with
      | none => none
      | some (k, r) =>
        match skipSpace r with
        | ':' :: r =>
          match valueRest fuel depth r with
          | none => none
          | some (v, r) =>
            match skipSpace r with
            | ',' :: r => (membersRest fuel depth r).map fun (fields, r) => ((k, v) :: fields, r)
            | '\x7d' :: r => some ([(k, v)], r)
            | _ => none
        | _ => none
    | _ => none

end

/-- The value that a whole text spells. Fewer than 128 levels may be open at once. -/
def read? (s : String) : Option Json :=
  let cs := s.toList
  match valueRest (2 * cs.length + 2) 128 cs with
  | some (v, rest) => if (skipSpace rest).isEmpty then some v else none
  | none => none

end WorkflowAudit.Json
