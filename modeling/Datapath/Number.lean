import Datapath.Mishap

/-!
# Numbers

A number given by a user is an integer or a double, and the two are compared by exact value. The
value of a number is a rational or one of the special values of a double; `NaN` stands in no order
relation, not even to itself.
-/

namespace Datapath

/-- A rational, an infinity, or not a number. -/
inductive Extended where
  /-- Not a number. -/
  | nan
  | infinite (negative : Bool)
  | rational (value : Rat)
deriving DecidableEq, Inhabited

namespace Extended

def lt : Extended → Extended → Bool
  | .rational a, .rational b => decide (a < b)
  | .rational _, .infinite negative => !negative
  | .infinite negative, .rational _ => negative
  | .infinite a, .infinite b => a && !b
  | _, _ => false

/-- Equality of values. -/
def equals : Extended → Extended → Bool
  | .nan, _ => false
  | a, b => decide (a = b)

def le (a b : Extended) : Bool := lt a b || equals a b

def zero : Extended := .rational 0

end Extended

def Double.value : Double → Extended
  | .nan _ => .nan
  | .infinite negative => .infinite negative
  | x => .rational (x.toRat?.getD 0)

/-- An integer or a double. -/
inductive Number where
  | int (value : Int)
  | real (value : Double)
deriving DecidableEq, Repr, Inhabited

namespace Number

/-- The exact value of a number. -/
def value : Number → Extended
  | .int n => .rational n
  | .real x => x.value

def toJson : Number → Json
  | .int n => .int n
  | .real x => .real x

/-- The nearest double to a number. An integer may be beyond the doubles. -/
def toDouble : Number → Except Mishap Double
  | .real x => .ok x
  | .int n =>
    match Double.ofRat n with
    | .infinite _ => .error .integerTooLarge
    | x => .ok x

/-- A number to six significant digits. -/
def rounded (n : Number) : Except Mishap String := n.toDouble.map Double.toRounded

/-- A number to six significant digits, always with a sign. -/
def signedRounded (n : Number) : Except Mishap String := n.toDouble.map Double.toSignedRounded

end Number

namespace Json

/-- The number that a value is; a truth value is zero or one. -/
def number? : Json → Option Number
  | .int n => some (.int n)
  | .bool b => some (.int (if b then 1 else 0))
  | .real x => some (.real x)
  | _ => none

/-- A rounded form of a value; only numbers have one. -/
def inRounded (form : Number → Except Mishap String) (value : Json) : Except Mishap String :=
  match value.number? with
  | some n => form n
  | none =>
    match value with
    | .str _ => .error .roundedText
    | other => .error (.noRoundedForm other.kindName)

/-- A value to six significant digits. -/
def rounded (value : Json) : Except Mishap String := value.inRounded Number.rounded

/-- A value to six significant digits, always with a sign. -/
def signedRounded (value : Json) : Except Mishap String := value.inRounded Number.signedRounded

/-- Whether two values name the same thing: equal texts do, and so do numbers of equal value. -/
def sameName : Json → Json → Bool
  | .null, .null => true
  | .str a, .str b => decide (a = b)
  | .int a, .int b => decide (a = b)
  | a, b =>
    match a.number?, b.number? with
    | some a, some b => a.value.equals b.value
    | _, _ => false

end Json

end Datapath
