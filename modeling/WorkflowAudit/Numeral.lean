import WorkflowAudit.Binary64.Decimal

/-!
Numbers of a data format: whole numbers that fit 64 bits, and floating-point numbers.
-/

namespace WorkflowAudit

inductive Numeral where
  | natural (n : Nat)
  /-- The whole number below zero with a given magnitude. -/
  | negative (n : Nat)
  | real (x : Binary64)
  deriving DecidableEq, Repr

namespace Numeral

def toBinary64 : Numeral → Binary64
  | .natural n => Binary64.ofNat n
  | .negative n => Binary64.ofInt (-n)
  | .real x => x

/-- Numbers of different kinds are never the same. -/
def same : Numeral → Numeral → Bool
  | .natural a, .natural b => a = b
  | .negative a, .negative b => a = b
  | .real x, .real y => x.equal y
  | _, _ => false

def display : Numeral → String
  | .natural n => Text.ofNat n
  | .negative n => "-" ++ Text.ofNat n
  | .real x => x.displayMarked

end Numeral

end WorkflowAudit
