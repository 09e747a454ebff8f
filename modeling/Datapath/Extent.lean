import Datapath.Interval
import Datapath.Json.Arithmetic
import Datapath.Json.Reading

/-!
# Extents

An extent is a range whose ends are document values of any kind. Ends that are integers in the right
order make it an interval, and on intervals every operation here is that of `Interval`. On other
extents the same formulas are evaluated with the arithmetic and the order of document values, so an
operation fails only where a value does not take part in it.
-/

namespace Datapath

/-- A range with ends of any kind. -/
structure Extent where
  lo : Json
  hi : Json
deriving Inhabited

namespace Extent

/-! ## Extents and intervals -/

def ofInterval (a : Interval) : Extent := ⟨.int a.lo, .int a.hi⟩

/-- The interval that an extent is. -/
def interval? (a : Extent) : Option Interval :=
  match a.lo, a.hi with
  | .int lo, .int hi => (Interval.make lo hi).toOption
  | _, _ => none

@[simp] theorem interval?_ofInterval (a : Interval) : (ofInterval a).interval? = some a := by
  change (Interval.make a.lo a.hi).toOption = some a
  rw [Interval.make, dif_pos a.lo_le_hi]
  rfl

/-- An operation on extents that is one on intervals where it can be. -/
def lift {β : Type} (onIntervals : Interval → Interval → β)
    (onExtents : Extent → Extent → Except Mishap β) (a b : Extent) : Except Mishap β :=
  match a.interval?, b.interval? with
  | some x, some y => .ok (onIntervals x y)
  | _, _ => onExtents a b

/-- An operation with an extent as its result that is one on intervals where it can be. -/
def liftTo (onIntervals : Interval → Interval → Interval)
    (onExtents : Extent → Extent → Except Mishap Extent) : Extent → Extent → Except Mishap Extent :=
  lift (fun x y ↦ ofInterval (onIntervals x y)) onExtents

/-! ## Making extents -/

/-- The extent with the given ends, unless they are in the wrong order. -/
def make (lo hi : Json) : Except Mishap Extent :=
  match lo, hi with
  | .int lo, .int hi => (Interval.make lo hi).map ofInterval
  | lo, hi => do
    if ← lo.compare .greater hi then throw (.emptyInterval lo hi)
    return ⟨lo, hi⟩

def point (value : Json) : Except Mishap Extent := make value value

/-- The smallest and the largest integer with the given number of bits. -/
def bitRange (m : Machine) (bits signed : Json) : Except Mishap (Int × Int) :=
  match bits.integer? with
  | some n => m.bitRange n signed.isTrue
  | none => do
    let exponent ← if signed.isTrue then bits.sub (.int 1) else pure bits
    throw (.noOperator "<<" "int" exponent.kindName)

/-- Every integer with the given number of bits. -/
def ofWidth (m : Machine) (bits signed : Json) : Except Mishap Extent := do
  let (lo, hi) ← bitRange m bits signed
  make (.int lo) (.int hi)

def least : List Json → Except Mishap Json
  | [] => .error .emptyMinimum
  | value :: rest => rest.foldlM Json.lesser value

def greatest : List Json → Except Mishap Json
  | [] => .error .emptyMinimum
  | value :: rest => rest.foldlM Json.greater value

/-- The smallest extent that contains some values. -/
def span (values : List Json) : Except Mishap Extent := do
  let lo ← least values
  let hi ← greatest values
  make lo hi

/-- The smallest extent that contains every extent of a list. -/
def hull (extents : List Extent) : Except Mishap Extent :=
  match extents.mapM interval? with
  | some intervals => (Interval.hull intervals).map ofInterval
  | none => do
    let lo ← least (extents.map (·.lo))
    let hi ← greatest (extents.map (·.hi))
    make lo hi

/-! ## Order and lattice -/

def contains (a : Extent) (value : Json) : Except Mishap Bool :=
  match a.interval?, value with
  | some x, .int n => .ok (x.contains n)
  | _, value => do
    if ← a.lo.compare .atMost value then value.compare .atMost a.hi else return false

/-- Whether two extents have equal ends, or the same ones. -/
def equals (a b : Extent) : Bool := Json.equalItems [a.lo, a.hi] [b.lo, b.hi]

def isPoint (a : Extent) : Bool := a.lo.equals a.hi

def size (a : Extent) : Except Mishap Json :=
  match a.interval? with
  | some x => .ok (.int x.size)
  | none => do (← a.hi.sub a.lo).add (.int 1)

/-- Whether one extent lies in another. -/
def leq : Extent → Extent → Except Mishap Bool :=
  lift Interval.leq fun a b ↦ do
    if ← b.lo.compare .atMost a.lo then a.hi.compare .atMost b.hi else return false

/-- The smallest extent that contains both. -/
def join : Extent → Extent → Except Mishap Extent :=
  liftTo Interval.join fun a b ↦ do
    if ← leq a b then return b
    if ← leq b a then return a
    make (← a.lo.lesser b.lo) (← a.hi.greater b.hi)

/-- The common part, if there is one. -/
def meet : Extent → Extent → Except Mishap (Option Extent) :=
  lift (fun x y ↦ (x.meet y).map ofInterval) fun a b ↦ do
    let lo ← a.lo.greater b.lo
    let hi ← a.hi.lesser b.hi
    if ← lo.compare .greater hi then return none
    return some (← make lo hi)

/-! ## Widening -/

/-- The integers that a value lists. -/
def integers? (value : Json) : Option (List Int) :=
  match value with
  | .arr items => Json.integers? items
  | _ => none

def widenLo (joined a b : Extent) (thresholds : Json) : Except Mishap Json := do
  if ← b.lo.compare .less a.lo then
    let below ← (← thresholds.toItems).filterM fun t ↦ t.compare .atMost b.lo
    return below.getLast?.getD joined.lo
  else return joined.lo

def widenHi (joined a b : Extent) (thresholds : Json) : Except Mishap Json := do
  if ← b.hi.compare .greater a.hi then
    let above ← (← thresholds.toItems).filterM fun t ↦ t.compare .atLeast b.hi
    return above.head?.getD joined.hi
  else return joined.hi

/-- Widening with thresholds, which are used in the order given. -/
def widen (a b : Extent) (thresholds : Json) : Except Mishap Extent :=
  match a.interval?, b.interval?, integers? thresholds with
  | some x, some y, some ts => .ok (ofInterval (x.widen y ts))
  | _, _, _ => do
    let joined ← join a b
    let lo ← widenLo joined a b thresholds
    let hi ← widenHi joined a b thresholds
    make lo hi

/-- Wraps values into a range. -/
def wrap (a : Extent) (lo hi : Json) : Except Mishap Extent :=
  match a.interval?, lo, hi with
  | some x, .int lo, .int hi => (x.wrap lo hi).map ofInterval
  | _, lo, hi => do
    if ← lo.compare .atMost a.lo then
      if ← a.hi.compare .atMost hi then return a
    make lo hi

/-! ## Arithmetic -/

def add : Extent → Extent → Except Mishap Extent :=
  liftTo Interval.add fun a b ↦ do make (← a.lo.add b.lo) (← a.hi.add b.hi)

def sub : Extent → Extent → Except Mishap Extent :=
  liftTo Interval.sub fun a b ↦ do make (← a.lo.sub b.hi) (← a.hi.sub b.lo)

def mul : Extent → Extent → Except Mishap Extent :=
  liftTo Interval.mul fun a b ↦ do
    span [← a.lo.mul b.lo, ← a.lo.mul b.hi, ← a.hi.mul b.lo, ← a.hi.mul b.hi]

/-- A quotient, truncated toward zero. -/
def truncated (a b : Json) : Except Mishap Json := do
  let quotient ← (← a.magnitude).quotient (← b.magnitude)
  if (← a.compare .atLeast (.int 0)) = (← b.compare .greater (.int 0)) then return quotient
  else quotient.neg

/-- The extremes of the divisors of each sign. -/
def divisors (b : Extent) : Except Mishap (List (Json × Json)) := do
  let negative ← if ← b.lo.compare .less (.int 0) then
    pure [(b.lo, ← b.hi.lesser (.int (-1)))] else pure []
  let positive ← if ← b.hi.compare .greater (.int 0) then
    pure [(← b.lo.greater (.int 1), b.hi)] else pure []
  return negative ++ positive

def div : Extent → Extent → Except Mishap Extent :=
  liftTo Interval.div fun a b ↦ do
    let quotients ← (← divisors b).mapM fun (c, d) ↦
      [(a.lo, c), (a.lo, d), (a.hi, c), (a.hi, d)].mapM fun (x, y) ↦ truncated x y
    let zero := if ← b.contains (.int 0) then [Json.int 0] else []
    span (quotients.flatten ++ zero)

/-! ## Width and text -/

/-- The minimal width for every element. -/
def width (a : Extent) : Except Mishap BitWidth :=
  match a.interval? with
  | some x => .ok x.width
  | none => do
    if ← a.lo.compare .atLeast (.int 0) then
      return ⟨max 1 (← a.hi.binaryLength), false⟩
    else
      let below ← (← (← a.lo.neg).sub (.int 1)).binaryLength
      let above ← if ← a.hi.compare .greater (.int 0) then a.hi.binaryLength else pure 0
      return ⟨max below above + 1, true⟩

/-- The two ends. -/
def ends (a : Extent) : Json × Json := (a.lo, a.hi)

def text (a : Extent) : String := s!"[{a.lo.plain}, {a.hi.plain}]"

/-- An extent as text with its type. -/
def describe (a : Extent) : String := s!"Interval({a.text})"

end Extent

end Datapath
