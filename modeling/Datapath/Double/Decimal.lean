import Datapath.Double

/-!
# Decimal text of doubles

Two decimal forms of a double are written by this library.

* The *shortest* form has the fewest significant digits that read back as the same double, and of
  the candidates with that many digits the one nearest to the value; a tie goes to the even last
  digit. Documents, answers and messages use it.
* The *rounded* form has at most six significant digits and no trailing zeros. Reports use it for
  clock periods, margins and slacks.

Both choose digits by exact integer arithmetic. What they share is the choice between positional
and exponent notation, made from the decimal exponent of the leading digit.
-/

namespace Datapath

/-- A positive decimal `digits * 10 ^ exponent`. -/
structure Decimal where
  /-- The significant digits, read as one number. -/
  digits : Nat
  /-- The power of ten of the last digit. -/
  exponent : Int
deriving DecidableEq, Repr, Inhabited

namespace Decimal

def length (n : Nat) : Nat := (Nat.toDigits 10 n).length

/-- The largest `k` with `10 ^ k ≤ num / den`, for a positive ratio. -/
def floorLog10 (num den : Nat) : Int :=
  let guess : Int := (length num : Int) - (length den : Int)
  if Double.powLe 10 num den guess then guess else guess - 1

/-- The decimal with trailing zeros dropped; `fuel` bounds the number of zeros. -/
def trim : Nat → Decimal → Decimal
  | 0, d => d
  | fuel + 1, d =>
    if d.digits ≠ 0 && d.digits % 10 == 0 then trim fuel ⟨d.digits / 10, d.exponent + 1⟩ else d

/-- The ratio `num / den` rounded to `places` significant digits, a tie going to the even
neighbour. -/
def ofRatio (places num den : Nat) : Decimal :=
  let exponent := floorLog10 num den - places + 1
  let (num, den) := Double.shift 10 num den exponent
  ⟨Double.roundDiv num den, exponent⟩

/-- The value of a decimal as an exact ratio. -/
def ratio (d : Decimal) : Nat × Nat :=
  if 0 ≤ d.exponent then (d.digits * Nat.pow 10 d.exponent.toNat, 1)
  else (d.digits, Nat.pow 10 (-d.exponent).toNat)

/-- The power of ten of the leading digit. -/
def leading (d : Decimal) : Int := d.exponent + length d.digits - 1

/-! ## The shortest decimal that reads back -/

/-- The reals that round to `significand * 2 ^ exponent`, as four times their ends in units of
`2 ^ exponent`. Below a power of two the spacing halves, and so does the reach downwards. -/
def reach (significand : Nat) (exponent : Int) : Nat × Nat :=
  let below := if significand = 1 <<< 52 && Double.minExponent < exponent then 1 else 2
  (4 * significand - below, 4 * significand + 2)

/-- Whether a decimal reads back as `significand * 2 ^ exponent`. The ends of the reach belong to
it exactly when the significand is even. -/
def readsBack (significand : Nat) (exponent : Int) (d : Decimal) : Bool :=
  let (num, den) := d.ratio
  let (num, den) := Double.shift 2 num den exponent
  let (low, high) := reach significand exponent
  if significand % 2 == 0 then decide (low * den ≤ 4 * num) && decide (4 * num ≤ high * den)
  else decide (low * den < 4 * num) && decide (4 * num < high * den)

/-- The shortest decimal with `places` digits or more that reads back; `fuel` bounds the number of
places tried. Only the two neighbours of the value on each decimal grid can be in its reach. -/
def shortestFrom (significand : Nat) (exponent : Int) : Nat → Nat → Decimal
  | 0, places =>
    let (num, den) := Double.ratio significand exponent
    ofRatio places num den
  | fuel + 1, places =>
    let (num, den) := Double.ratio significand exponent
    let unit := floorLog10 num den - places + 1
    let (num, den) := Double.shift 10 num den unit
    let low : Decimal := ⟨num / den, unit⟩
    let high : Decimal := ⟨num / den + 1, unit⟩
    match readsBack significand exponent low, readsBack significand exponent high with
    | true, true => ⟨Double.roundDiv num den, unit⟩
    | true, false => low
    | false, true => high
    | false, false => shortestFrom significand exponent fuel (places + 1)

/-- The shortest decimal that reads back as a positive finite double. Seventeen digits are always
enough. -/
def shortest (significand : Nat) (exponent : Int) : Decimal :=
  trim 20 (shortestFrom significand exponent 17 1)

/-! ## Notation -/

/-- Decimal digits in positional notation. -/
def positional (d : Decimal) : String :=
  let digits := Nat.toDigits 10 d.digits
  if 0 ≤ d.exponent then String.ofList (digits ++ List.replicate d.exponent.toNat '0')
  else
    let places := (-d.exponent).toNat
    let digits := List.replicate (places + 1 - digits.length) '0' ++ digits
    String.ofList (digits.take (digits.length - places)) ++ "." ++
      String.ofList (digits.drop (digits.length - places))

/-- Decimal digits in exponent notation: one digit before the point, and an exponent with its sign
and at least two digits. -/
def scientific (d : Decimal) : String :=
  let digits := Nat.toDigits 10 d.digits
  let fraction := digits.drop 1
  let e := d.leading
  let magnitude := toString e.natAbs
  String.ofList (digits.take 1) ++
    (if fraction.isEmpty then "" else "." ++ String.ofList fraction) ++
    (if e < 0 then "e-" else "e+") ++
    (if magnitude.length < 2 then "0" ++ magnitude else magnitude)

end Decimal

namespace Double

/-- The shortest decimal that reads back, for a finite double. -/
def shortest? : Double → Option Decimal
  | .finite _ significand exponent =>
    some (if significand = 0 then ⟨0, 0⟩ else Decimal.shortest significand exponent)
  | _ => none

/-- The double nearest to `± digits * 10 ^ exponent`. Decimals far outside the range of doubles are
settled by the place of their leading digit, without computing the power of ten. -/
def ofDecimal (negative : Bool) (d : Decimal) : Double :=
  if d.digits = 0 || d.leading < -330 then .finite negative 0 minExponent
  else if 310 < d.leading then .infinite negative
  else
    let (num, den) := d.ratio
    ofRatio negative num den

/-- Infinities and `NaN` as words. -/
def wordFor (nan infinity : String) : Double → String
  | .nan _ => nan
  | x => if x.isNegative then "-" ++ infinity else infinity

/-- The shortest form. Values from `1e-4` up to `1e16` are positional and always have a point. -/
def toText (x : Double) : String :=
  match x.shortest? with
  | none => wordFor "nan" "inf" x
  | some d =>
    let sign := if x.isNegative then "-" else ""
    if d.digits = 0 then sign ++ "0.0"
    else if -4 ≤ d.leading && d.leading < 16 then
      let text := d.positional
      sign ++ (if d.exponent ≥ 0 then text ++ ".0" else text)
    else sign ++ d.scientific

/-- The rounded form without a sign: at most six significant digits. Values from `1e-4` up to `1e6`
are positional. -/
def roundedMagnitude : Double → String
  | .finite _ significand exponent =>
    if significand = 0 then "0"
    else
      let (num, den) := ratio significand exponent
      let d := Decimal.trim 6 (Decimal.ofRatio 6 num den)
      if -4 ≤ d.leading && d.leading < 6 then d.positional else d.scientific
  | .nan _ => "nan"
  | .infinite _ => "inf"

/-- The rounded form: a sign for negative values only. -/
def toRounded (x : Double) : String :=
  (if x.isNegative then "-" else "") ++ x.roundedMagnitude

/-- The rounded form with a sign for every value. -/
def toSignedRounded (x : Double) : String :=
  (if x.isNegative then "-" else "+") ++ x.roundedMagnitude

end Double

end Datapath
