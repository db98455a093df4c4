/-!
Binary floating point with a significand of 53 bits. A finite number is a significand times a power
of two, in the one form in which either the significand has all 53 bits or the exponent is the least
one; equality can therefore compare the parts.
-/

namespace WorkflowAudit

inductive Binary64 where
  | nan
  | infinite (negative : Bool)
  | finite (negative : Bool) (significand : Nat) (exponent : Int)
  deriving DecidableEq, Repr

namespace Binary64

def minExponent : Int := -1074

def maxExponent : Int := 971

def zero (negative : Bool) : Binary64 := .finite negative 0 minExponent

/-- The quotient rounded to the nearest whole number, a half to the even neighbour. -/
def roundQuotient (num den : Nat) : Nat :=
  let q := num / den
  let r := num % den
  if den < 2 * r || (2 * r = den && q % 2 = 1) then q + 1 else q

/-- `num / den` in units of `2 ^ exponent`, as a quotient. -/
def scaled (num den : Nat) (exponent : Int) : Nat × Nat :=
  if 0 ≤ exponent then (num, den * Nat.pow 2 exponent.toNat)
  else (num * Nat.pow 2 (-exponent).toNat, den)

/-- The exponent for which the significand of `num / den` has 53 bits, but not below the least. -/
def exponentOf (num den : Nat) : Int :=
  let guess : Int := (Nat.log2 num : Int) - (Nat.log2 den : Int) - 53
  let (n, d) := scaled num den guess
  let fitted := if Nat.pow 2 53 ≤ n / d then guess + 1 else guess
  max fitted minExponent

def ofRatio (negative : Bool) (num den : Nat) : Binary64 :=
  if num = 0 then zero negative
  else
    let e := exponentOf num den
    let (n, d) := scaled num den e
    let m := roundQuotient n d
    let (m, e) := if m = Nat.pow 2 53 then (Nat.pow 2 52, e + 1) else (m, e)
    if maxExponent < e then .infinite negative else .finite negative m e

def ofNat (n : Nat) : Binary64 := ofRatio false n 1

def ofInt (i : Int) : Binary64 := ofRatio (i < 0) i.natAbs 1

/-- The number nearest to `digits · 10 ^ exponent`. A magnitude beyond all finite numbers, or below
half of the least one, is settled without forming the power. -/
def ofDecimal (negative : Bool) (digits : Nat) (exponent : Int) : Binary64 :=
  let magnitude : Int := (Nat.toDigits 10 digits).length + exponent
  if digits = 0 then zero negative
  else if 400 < magnitude then .infinite negative
  else if magnitude < -400 then zero negative
  else if 0 ≤ exponent then ofRatio negative (digits * Nat.pow 10 exponent.toNat) 1
  else ofRatio negative digits (Nat.pow 10 (-exponent).toNat)

def magnitude (significand : Nat) (exponent : Int) : Nat × Nat :=
  if 0 ≤ exponent then (significand * Nat.pow 2 exponent.toNat, 1)
  else (significand, Nat.pow 2 (-exponent).toNat)

/-- The rounded product with a power of ten that is itself rounded first. -/
def timesPowerOfTen (x : Binary64) (power : Nat) : Binary64 :=
  match x, ofDecimal false 1 power with
  | .finite s m e, .finite _ m' e' =>
    let (a, b) := magnitude m e
    let (c, d) := magnitude m' e'
    ofRatio s (a * c) (b * d)
  | .finite s m _, _ => if m = 0 then .nan else .infinite s
  | x, _ => x

/-- The rounded quotient by a power of ten that is itself rounded first. -/
def overPowerOfTen (x : Binary64) (power : Nat) : Binary64 :=
  match x, ofDecimal false 1 power with
  | .finite s m e, .finite _ m' e' =>
    let (a, b) := magnitude m e
    let (c, d) := magnitude m' e'
    ofRatio s (a * d) (b * c)
  | .finite s _ _, _ => zero s
  | x, _ => x

def negate : Binary64 → Binary64
  | .nan => .nan
  | .infinite s => .infinite (!s)
  | .finite s m e => .finite (!s) m e

def isNaN : Binary64 → Bool
  | .nan => true
  | _ => false

def isFinite : Binary64 → Bool
  | .finite .. => true
  | _ => false

def isZero : Binary64 → Bool
  | .finite _ m _ => m = 0
  | _ => false

/-- Numerical equality: the zeros of both signs are equal, and NaN equals nothing. -/
def equal (x y : Binary64) : Bool :=
  !x.isNaN && (x = y || (x.isZero && y.isZero))

theorem equal_comm (x y : Binary64) : equal x y = equal y x := by
  by_cases h : x = y
  · simp [h]
  · have h' : ¬ y = x := fun e => h e.symm
    cases x <;> cases y <;> simp [equal, isNaN, isZero, h, h', Bool.and_comm]

end Binary64

end WorkflowAudit
