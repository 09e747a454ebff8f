/-!
# Doubles

Configurations and timing reports hold IEEE doubles besides integers. They are read, compared and
written far more often than they are added or multiplied. A finite double is therefore kept as its
sign, significand and exponent, so that its value is an exact rational and every question asked
about it is settled in integer arithmetic.

## Rounding

`Double.ofRatio` is the only place where precision is lost: it takes a ratio of natural numbers to
the nearest double, a tie going to the even significand, and to an infinity once the nearest value
with an unbounded exponent would need an exponent above `Double.maxExponent`.
-/

namespace Datapath

/-- An IEEE double. A finite one denotes `± significand * 2 ^ exponent`; the values made by this
library have a significand below `2 ^ 53`, and one of at least `2 ^ 52` unless the exponent is
`Double.minExponent`. -/
inductive Double where
  /-- Not a number, with a payload that tells one from another. What comes out of arithmetic has the
  payload zero. -/
  | nan (payload : Nat)
  /-- One of the two infinities. -/
  | infinite (negative : Bool)
  /-- A finite value, with its sign kept apart so that the two zeros differ. -/
  | finite (negative : Bool) (significand : Nat) (exponent : Int)
deriving DecidableEq, Repr, Inhabited

namespace Double

/-- The exponent of the smallest positive double. -/
def minExponent : Int := -1074

/-- The exponent of the largest finite double. -/
def maxExponent : Int := 971

def zero : Double := .finite false 0 minExponent

/-! ## Exact ratios -/

/-- The natural number nearest to `num / den`; a tie goes to the even neighbour. -/
def roundDiv (num den : Nat) : Nat :=
  let quotient := num / den
  let twice := 2 * (num % den)
  if twice < den || (twice == den && quotient % 2 == 0) then quotient else quotient + 1

/-- The ratio `num / den` divided by `base ^ e`, again as a numerator and a denominator. -/
def shift (base num den : Nat) (e : Int) : Nat × Nat :=
  if 0 ≤ e then (num, den * base.pow e.toNat) else (num * base.pow (-e).toNat, den)

/-- Whether `base ^ e ≤ num / den`. -/
def powLe (base num den : Nat) (e : Int) : Bool :=
  let (num, den) := shift base num den e
  decide (den ≤ num)

/-- The largest `e` with `2 ^ e ≤ num / den`, for a positive ratio. The two logarithms are off by
at most one. -/
def floorLog2 (num den : Nat) : Int :=
  let guess : Int := (Nat.log2 num : Int) - (Nat.log2 den : Int)
  if powLe 2 num den guess then guess else guess - 1

/-- The double nearest to `num / den`, with the given sign; a tie goes to the even significand. -/
def ofRatio (negative : Bool) (num den : Nat) : Double :=
  if num = 0 then .finite negative 0 minExponent
  else
    let exponent := max minExponent (floorLog2 num den - 52)
    let (num, den) := shift 2 num den exponent
    let significand := roundDiv num den
    if significand = 1 <<< 53 then
      if exponent < maxExponent then .finite negative (1 <<< 52) (exponent + 1)
      else .infinite negative
    else if exponent ≤ maxExponent then .finite negative significand exponent
    else .infinite negative

def ofRat (q : Rat) : Double :=
  ofRatio (decide (q < 0)) q.num.natAbs q.den

/-- The magnitude of a finite double as an exact ratio. -/
def ratio (significand : Nat) (exponent : Int) : Nat × Nat :=
  if 0 ≤ exponent then (significand <<< exponent.toNat, 1)
  else (significand, 1 <<< (-exponent).toNat)

/-- The exact value of a finite double. -/
def toRat? : Double → Option Rat
  | .finite negative significand exponent =>
    let (num, den) := ratio significand exponent
    some (mkRat (if negative then -(num : Int) else num) den)
  | _ => none

def isZero : Double → Bool
  | .finite _ significand _ => significand == 0
  | _ => false

def isNan : Double → Bool
  | .nan _ => true
  | _ => false

/-- The sign bit; `NaN` counts as positive. -/
def isNegative : Double → Bool
  | .nan _ => false
  | .infinite negative => negative
  | .finite negative _ _ => negative

/-- The same magnitude with the sign cleared. -/
def abs : Double → Double
  | .nan _ => .nan 0
  | .infinite _ => .infinite false
  | .finite _ significand exponent => .finite false significand exponent

/-- The integer reached by dropping the fractional part of a finite double. -/
def truncate? : Double → Option Int
  | .finite negative significand exponent =>
    let (num, den) := ratio significand exponent
    some (if negative then -((num / den : Nat) : Int) else ((num / den : Nat) : Int))
  | _ => none

end Double

end Datapath
