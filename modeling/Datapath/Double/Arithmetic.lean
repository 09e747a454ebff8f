import Datapath.Double

/-!
# Arithmetic of doubles

Sums and products compute the exact rational and round it once. Zeros keep their signs, and the
special values are treated as usual: the difference of equal infinities and the product of zero and
an infinity are not numbers.
-/

namespace Datapath.Double

def neg : Double → Double
  | .nan _ => .nan 0
  | .infinite negative => .infinite (!negative)
  | .finite negative significand exponent => .finite (!negative) significand exponent

def add : Double → Double → Double
  | .nan _, _ => .nan 0
  | _, .nan _ => .nan 0
  | .infinite a, .infinite b => if a = b then .infinite a else .nan 0
  | .infinite a, _ => .infinite a
  | _, .infinite b => .infinite b
  | x, y =>
    let sum := x.toRat?.getD 0 + y.toRat?.getD 0
    if sum = 0 then .finite (x.isNegative && y.isNegative) 0 minExponent else ofRat sum

def mul (x y : Double) : Double :=
  let negative := x.isNegative != y.isNegative
  match x.toRat?, y.toRat? with
  | some a, some b => ofRatio negative (a * b).num.natAbs (a * b).den
  | _, _ => if x.isNan || y.isNan || x.isZero || y.isZero then .nan 0 else .infinite negative

/-- A quotient with a value rounded to the nearest double, as an integer. -/
def wholePart (quotient : Double) : Double :=
  match quotient.toRat? with
  | none => quotient
  | some q =>
    let below : Int := q.floor
    ofRat (if q - below > 1 / 2 then below + 1 else below)

/-- How often a positive double goes into one that is not negative. What remains is taken off first,
and what is left is divided; both steps are rounded, so a very large result need not be the nearest
double to the exact one. -/
def quotient (x y : Double) : Double :=
  match x.toRat?, y with
  | some _, .infinite _ => zero
  | some a, y =>
    match y.toRat? with
    | some b =>
      let multiple := ofRat (b * ((a / b).floor : Int))
      wholePart (ofRat (multiple.toRat?.getD 0 / b))
    | none => .nan 0
  | none, _ => .nan 0

end Datapath.Double
