import WorkflowAudit.Binary64.Basic
import WorkflowAudit.Text.Basic

/-!
Decimal spellings of binary floating-point numbers: reading one, and the fewest digits that read
back.
-/

namespace WorkflowAudit.Binary64

def special (negative : Bool) (cs : List Char) : Option Binary64 :=
  let word := String.ofList (cs.map Char.toLower)
  if word = "inf" || word = "infinity" then some (.infinite negative)
  else if word = "nan" then some .nan
  else none

/-- The exponent part of a spelling: nothing, or a letter `e` with a signed number. -/
def exponentPart : List Char → Option Int
  | [] => some 0
  | c :: rest =>
    if c = 'e' || c = 'E' then
      let (negative, digits) := match rest with
        | '-' :: r => (true, r)
        | '+' :: r => (false, r)
        | r => (false, r)
      if digits.isEmpty || !digits.all Char.isDigit then none
      else
        let n : Int := Text.numeral digits
        some (if negative then -n else n)
    else none

/-- Digits with at most one point among them, at least one digit, and an exponent. -/
def unsigned (negative : Bool) (cs : List Char) : Option Binary64 :=
  let whole := cs.takeWhile Char.isDigit
  let rest := cs.dropWhile Char.isDigit
  let (fraction, rest) := match rest with
    | '.' :: r => (r.takeWhile Char.isDigit, r.dropWhile Char.isDigit)
    | r => ([], r)
  if whole.isEmpty && fraction.isEmpty then special negative cs
  else (exponentPart rest).map fun e =>
    ofDecimal negative (Text.numeral (whole ++ fraction)) (e - fraction.length)

/-- Reads a decimal spelling, rounding to the nearest number. -/
def read? (s : String) : Option Binary64 :=
  match s.toList with
  | '-' :: cs => unsigned true cs
  | '+' :: cs => unsigned false cs
  | cs => unsigned false cs

/-- Digits of `0.d₁d₂… · 10 ^ point`. -/
structure Digits where
  digits : List Char
  point : Int
  deriving Repr

inductive Tie where
  | up
  | even
  deriving DecidableEq

/-- The numbers that round to `significand · 2 ^ exponent`, in quarters of a unit: the significand,
its distance down and its distance up. The distance down halves at a power of two. -/
def interval (significand : Nat) (exponent : Int) : Nat × Nat × Nat :=
  if significand = Nat.pow 2 52 && minExponent < exponent then (4 * significand, 1, 2)
  else (4 * significand, 2, 2)

/-- The least `k` with `num / den < 10 ^ k`, looked for upward from `k`. -/
def decimalPoint (num den : Nat) : Nat → Int → Int
  | 0, k => k
  | fuel + 1, k =>
    let below := if 0 ≤ k then num < den * Nat.pow 10 k.toNat else num * Nat.pow 10 (-k).toNat < den
    if below then k else decimalPoint num den fuel (k + 1)

/-- `n` digits of the number when one of its two neighbours on the grid of `n` digits rounds back
to it. -/
def digitsOnGrid (tie : Tie) (significand : Nat) (exponent point : Int) (n : Nat) : Option Nat :=
  let (v, down, up) := interval significand exponent
  let place : Int := point - n
  -- one unit of the grid is `grid / 1`, one quarter of a unit of the number is `unit / 1`
  let shift (a : Nat) : Nat := if 0 ≤ exponent then a * Nat.pow 2 exponent.toNat else a
  let bottom : Nat := if 0 ≤ exponent then 4 else 4 * Nat.pow 2 (-exponent).toNat
  let grid : Nat := if 0 ≤ place then bottom * Nat.pow 10 place.toNat else bottom
  let scale (a : Nat) : Nat := if 0 ≤ place then shift a else shift a * Nat.pow 10 (-place).toNat
  let value := scale v
  let low := scale (v - down)
  let high := scale (v + up)
  let inside (x : Nat) : Bool :=
    if significand % 2 = 0 then low ≤ x && x ≤ high else low < x && x < high
  let below := value / grid
  let above := below + 1
  let belowFits := inside (below * grid)
  let aboveFits := inside (above * grid)
  if belowFits && aboveFits then
    let a := value - below * grid
    let b := above * grid - value
    if a < b then some below
    else if b < a then some above
    else match tie with
      | .up => some above
      | .even => some (if below % 2 = 0 then below else above)
  else if belowFits then some below
  else if aboveFits then some above
  else none

def trimZeros (cs : List Char) : List Char := (cs.reverse.dropWhile (· = '0')).reverse

/-- Tries ever finer grids; seventeen digits always suffice. -/
def searchGrids (tie : Tie) (significand : Nat) (exponent point : Int) : Nat → Nat → Digits
  | 0, _ => ⟨['0'], 1⟩
  | fuel + 1, n =>
    match digitsOnGrid tie significand exponent point n with
    | some d =>
      let cs := Nat.toDigits 10 d
      ⟨trimZeros cs, point + (cs.length - n)⟩
    | none => searchGrids tie significand exponent point fuel (n + 1)

/-- The fewest digits that read back to `significand · 2 ^ exponent`, and of those the nearest. -/
def shortest (tie : Tie) (significand : Nat) (exponent : Int) : Digits :=
  if significand = 0 then ⟨['0'], 1⟩
  else
    let (num, den) := magnitude significand exponent
    let guess : Int := ((Nat.log2 num : Int) - Nat.log2 den) * 30103 / 100000 - 1
    searchGrids tie significand exponent (decimalPoint num den 6 guess) 17 1

def zeros (n : Nat) : List Char := List.replicate n '0'

/-- Plain positional notation, with a point only where digits follow it. -/
def positional (d : Digits) : List Char :=
  if d.point ≤ 0 then '0' :: '.' :: zeros (-d.point).toNat ++ d.digits
  else
    let whole := d.point.toNat
    if d.digits.length ≤ whole then d.digits ++ zeros (whole - d.digits.length)
    else d.digits.take whole ++ '.' :: d.digits.drop whole

def signed (negative : Bool) (cs : List Char) : String :=
  String.ofList (if negative then '-' :: cs else cs)

/-- The text of a number: the fewest digits, never an exponent. -/
def display : Binary64 → String
  | .nan => "NaN"
  | .infinite s => signed s "inf".toList
  | .finite s m e =>
    if m = 0 then signed s ['0'] else signed s (positional (shortest .up m e))

def scientific (d : Digits) : List Char :=
  let e := d.point - 1
  let mark := 'e' :: (toString e).toList
  match d.digits with
  | [c] => c :: mark
  | c :: rest => c :: '.' :: rest ++ mark
  | [] => mark

/-- The text of a number that always shows that it is not whole-number data: a point with at least
one digit after it, or an exponent outside of 10⁻⁵ … 10¹⁶. -/
def displayMarked : Binary64 → String
  | .nan => ".nan"
  | .infinite s => signed s ".inf".toList
  | .finite s m e =>
    if m = 0 then signed s "0.0".toList
    else
      let d := shortest .even m e
      if (d.digits.length : Int) ≤ d.point && d.point ≤ 16 then
        signed s (positional d ++ ['.', '0'])
      else if -5 < d.point && d.point ≤ 16 then signed s (positional d)
      else signed s (scientific d)

end WorkflowAudit.Binary64
