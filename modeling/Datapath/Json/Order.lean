import Datapath.Number

/-!
# The order of document values

Numbers are compared by value, texts by their characters, and arrays by their first items that
differ. Other values have no order; asking for it is a mishap that names the relation and both
kinds.
-/

namespace Datapath

/-- A relation of order. -/
inductive Comparison where
  | less
  | atMost
  | greater
  | atLeast
deriving DecidableEq, Repr, Inhabited

namespace Comparison

def symbol : Comparison → String
  | .less => "<"
  | .atMost => "<="
  | .greater => ">"
  | .atLeast => ">="

/-- Whether a relation holds between two numbers. -/
def onValues (r : Comparison) (a b : Extended) : Bool :=
  match r with
  | .less => a.lt b
  | .atMost => a.le b
  | .greater => b.lt a
  | .atLeast => b.le a

/-- Whether a relation holds between things that are in a known order. -/
def onOrdering (r : Comparison) (o : Ordering) : Bool :=
  match r with
  | .less => o.isLT
  | .atMost => o.isLE
  | .greater => o.isGT
  | .atLeast => o.isGE

end Comparison

namespace Json

/-- Whether two values are one `NaN`: it equals nothing, but it is the same as itself. The results
of arithmetic are told apart from everything. -/
def sameNan : Json → Json → Bool
  | .real (.nan a), .real (.nan b) => a != 0 && a == b
  | _, _ => false

mutual

/-- Whether two values are equal: numbers by value, objects regardless of the order of keys. -/
def equals : Json → Json → Bool
  | .arr as, .arr bs => equalItems as bs
  | .obj as, .obj bs => decide (as.length = bs.length) && equalEntries as bs
  | a, b => a.sameName b

/-- Whether two arrays have equal items, or the same ones. -/
def equalItems : List Json → List Json → Bool
  | [], [] => true
  | a :: as, b :: bs => (sameNan a b || equals a b) && equalItems as bs
  | _, _ => false

/-- Whether every entry of an object is in another, equal or the same. -/
def equalEntries : List (String × Json) → List (String × Json) → Bool
  | [], _ => true
  | (key, a) :: as, bs =>
    (match bs.lookup key with
      | some b => sameNan a b || equals a b
      | none => false) && equalEntries as bs

end

mutual

/-- Whether a relation of order holds between two values. -/
def compare (r : Comparison) : Json → Json → Except Mishap Bool
  | .arr as, .arr bs => compareItems r as bs
  | .str a, .str b => .ok (r.onOrdering (compareOfLessAndEq a b))
  | a, b =>
    match a.number?, b.number? with
    | some x, some y => .ok (r.onValues x.value y.value)
    | _, _ => .error (.noOrder r.symbol a.kindName b.kindName)

/-- Whether a relation of order holds between two arrays. -/
def compareItems (r : Comparison) : List Json → List Json → Except Mishap Bool
  | [], [] => .ok (r.onOrdering .eq)
  | [], _ :: _ => .ok (r.onOrdering .lt)
  | _ :: _, [] => .ok (r.onOrdering .gt)
  | a :: as, b :: bs =>
    if sameNan a b || equals a b then compareItems r as bs else compare r a b

end

/-- The lesser of two values; the first unless the second is below it. -/
def lesser (a b : Json) : Except Mishap Json := do
  return if ← compare .less b a then b else a

/-- The greater of two values; the first unless the second is above it. -/
def greater (a b : Json) : Except Mishap Json := do
  return if ← compare .greater b a then b else a

end Json

end Datapath
