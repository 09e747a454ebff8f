import Datapath.Mishap
import Datapath.Text.Literal

/-!
# Reading values loosely

A document may spell a number as a text, give a single text where a list is expected, or leave a
truth value to be inferred. The readings here say what each kind of value stands for in each place,
and which mishap it is otherwise.
-/

namespace Datapath.Json

/-- The integer that a value stands for: a double loses its fractional part, a truth value counts
as zero or one, a text is read as an integer literal. -/
def toInt : Json → Except Mishap Int
  | .int n => .ok n
  | .bool b => .ok (if b then 1 else 0)
  | .real (.nan _) => .error .nanAsInteger
  | .real x =>
    match x.truncate? with
    | some n => .ok n
    | none => .error .infinityAsInteger
  | .str s =>
    match Literal.int? s with
    | some n => .ok n
    | none => .error (.notAnInteger s)
  | value => .error (.noIntegerReading value.kindName)

/-- The items that a value lists: those of an array, the characters of a text, the keys of an
object. -/
def toItems : Json → Except Mishap (List Json)
  | .arr items => .ok items
  | .str s => .ok (s.toList.map fun c ↦ .str c.toString)
  | .obj entries => .ok (entries.map fun entry ↦ .str entry.1)
  | value => .error (.notIterable value.kindName)

/-- The item at a place in an array or a text. -/
def item (index : Nat) : Json → Except Mishap Json
  | .arr items =>
    match items[index]? with
    | some value => .ok value
    | none => .error .arrayTooShort
  | .str s =>
    match s.toList[index]? with
    | some c => .ok (.str c.toString)
    | none => .error .textTooShort
  | .obj _ => .error (.noSuchIndex index)
  | value => .error (.notSubscriptable value.kindName)

/-- Values that are joined into one text, for which all of them must be texts. -/
def joinable (values : List Json) : Except Mishap (List String) :=
  values.zipIdx.mapM fun
    | (.str s, _) => .ok s
    | (other, index) => .error (.notAText index other.kindName)

/-- Whether a value can be looked up by: arrays and objects cannot. -/
def isKey : Json → Bool
  | .arr _ => false
  | .obj _ => false
  | _ => true

end Datapath.Json
