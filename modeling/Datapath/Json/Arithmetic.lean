import Datapath.Double.Arithmetic
import Datapath.Json.Order

/-!
# Arithmetic of document values

Integers and truth values are calculated with exactly; as soon as a double is involved, the result
is a double. Texts and arrays can be joined, and repeated a number of times. Whatever an operator
does not take is a mishap that names the kinds.
-/

namespace Datapath

namespace Number

/-- Combines two numbers: exactly if both are integers, as doubles otherwise. -/
def combine (onInts : Int → Int → Int) (onDoubles : Double → Double → Double) (a b : Number) :
    Except Mishap Number :=
  match a, b with
  | .int m, .int n => .ok (.int (onInts m n))
  | a, b => do return .real (onDoubles (← a.toDouble) (← b.toDouble))

def magnitude : Number → Number
  | .int n => .int n.natAbs
  | .real x => .real x.abs

def negated : Number → Number
  | .int n => .int (-n)
  | .real x => .real x.neg

end Number

namespace Json

/-- The integer that a value is; a truth value is zero or one. -/
def integer? : Json → Option Int
  | .int n => some n
  | .bool b => some (if b then 1 else 0)
  | _ => none

/-- The greatest number that can count repetitions. -/
def greatestCount : Int := (1 <<< 63 : Nat) - 1

/-- How often something is repeated at most: what is longer does not fit into memory. -/
def mostRepetitions : Int := (1 <<< 24 : Nat)

/-- A list several times, if the number can count and the result fits into memory. `tooLong` is the
mishap of a result whose length cannot be counted. -/
def repeated {α : Type} (tooLong : Mishap) (items : List α) (count : Int) :
    Except Mishap (List α) :=
  if greatestCount < count || count < -greatestCount - 1 then .error .countTooLarge
  else if items.isEmpty || count ≤ 0 then .ok []
  else if greatestCount < items.length * count then .error tooLong
  else if mostRepetitions < count then .error .outOfMemory
  else .ok (List.replicate count.toNat items).flatten

def repeatText (s : String) (count : Int) : Except Mishap Json :=
  (repeated .textTooLong s.toList count).map fun cs ↦ .str (String.ofList cs)

def repeatItems (items : List Json) (count : Int) : Except Mishap Json :=
  (repeated .outOfMemory items count).map .arr

/-- The mishap of an operator on two values. -/
def refuse (operator : String) (a b : Json) : Except Mishap Json :=
  .error (.noOperator operator a.kindName b.kindName)

/-- The sum of two values, or one text or array after another. -/
def add (a b : Json) : Except Mishap Json :=
  match a, b with
  | .str s, .str t => .ok (.str (s ++ t))
  | .arr as, .arr bs => .ok (.arr (as ++ bs))
  | .str _, b => .error (.noContinuation "str" b.kindName)
  | .arr _, b => .error (.noContinuation "list" b.kindName)
  | a, b =>
    match a.number?, b.number? with
    | some x, some y => (x.combine (· + ·) Double.add y).map Number.toJson
    | _, _ => refuse "+" a b

def sub (a b : Json) : Except Mishap Json :=
  match a.number?, b.number? with
  | some x, some y => (x.combine (· - ·) (fun x y ↦ x.add y.neg) y).map Number.toJson
  | _, _ => refuse "-" a b

/-- The product of two values, or a text or an array several times. -/
def mul (a b : Json) : Except Mishap Json :=
  match a.number?, b.number? with
  | some x, some y => (x.combine (· * ·) Double.mul y).map Number.toJson
  | _, _ =>
    match a, b, a.integer?, b.integer? with
    | .str s, _, _, some n => repeatText s n
    | _, .str s, some n, _ => repeatText s n
    | .arr items, _, _, some n => repeatItems items n
    | _, .arr items, some n, _ => repeatItems items n
    | .str _, b, _, _ => .error (.noRepetition b.kindName)
    | .arr _, b, _, _ => .error (.noRepetition b.kindName)
    | a, .str _, _, _ => .error (.noRepetition a.kindName)
    | a, .arr _, _, _ => .error (.noRepetition a.kindName)
    | a, b, _, _ => refuse "*" a b

def neg (a : Json) : Except Mishap Json :=
  match a.number? with
  | some x => .ok x.negated.toJson
  | none => .error (.noUnaryOperator "unary -" a.kindName)

def magnitude (a : Json) : Except Mishap Json :=
  match a.number? with
  | some x => .ok x.magnitude.toJson
  | none => .error (.noUnaryOperator "abs()" a.kindName)

/-- How often one magnitude goes into another. -/
def quotient (a b : Json) : Except Mishap Json :=
  match a.number?, b.number? with
  | some x, some y => (x.combine (· / ·) Double.quotient y).map Number.toJson
  | _, _ => refuse "//" a b

/-- The number of binary digits in the magnitude of a value. -/
def binaryLength (a : Json) : Except Mishap Nat :=
  match a.integer? with
  | some n => .ok (if n = 0 then 0 else Nat.log2 n.natAbs + 1)
  | none => .error (.noOperation a.kindName "bit_length")

end Json

end Datapath
