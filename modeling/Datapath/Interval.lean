import Datapath.Magnitude

/-!
# Intervals

The abstract domain of width inference: closed, non-empty ranges of integers, ordered by inclusion.
Non-emptiness is part of the type, so every operation below that cannot produce an empty range is a
total function on intervals; the two that can, `Interval.make` and `Interval.wrap`, say so.

Division truncates toward zero and a quotient by zero is zero. A bit width is *minimal* for an
interval: unsigned when no value is negative, two's complement otherwise.
-/

namespace Datapath

/-- The number of binary digits of a natural number; zero has none. -/
def bitLength (n : Nat) : Nat := if n = 0 then 0 else Nat.log2 n + 1

/-- A number of bits and a signedness. -/
structure BitWidth where
  bits : Nat
  /-- Whether the values are in two's complement. -/
  signed : Bool
deriving DecidableEq, Repr, Inhabited

/-- The short name of a width, such as `u8` or `s12`. -/
def BitWidth.text (w : BitWidth) : String := (if w.signed then "s" else "u") ++ toString w.bits

/-- The smallest and the largest integer with the given number of bits. -/
def bitRange (bits : Int) (signed : Bool) : Except Mishap (Int × Int) :=
  let exponent := if signed then bits - 1 else bits
  if exponent < 0 then .error .negativeShift
  else
    let power := (1 : Int) <<< exponent.toNat
    .ok (if signed then (-power, power - 1) else (0, power - 1))

/-- The smallest and the largest integer with the given number of bits, unless a machine cannot
calculate them. -/
def Machine.bitRange (m : Machine) (bits : Int) (signed : Bool) : Except Mishap (Int × Int) :=
  match m.rangeMishap? bits signed with
  | some mishap => .error mishap
  | none => Datapath.bitRange bits signed

/-- A closed, non-empty range of integers. -/
structure Interval where
  lo : Int
  hi : Int
  /-- The range is not empty. -/
  lo_le_hi : lo ≤ hi
deriving DecidableEq

namespace Interval

instance : Inhabited Interval := ⟨⟨0, 0, Int.le_refl 0⟩⟩

/-! ## Making intervals -/

/-- The interval with the given ends, if they are in order. -/
def make (lo hi : Int) : Except Mishap Interval :=
  if h : lo ≤ hi then .ok ⟨lo, hi, h⟩ else .error (.emptyInterval (.int lo) (.int hi))

/-- The interval of one integer. -/
def point (n : Int) : Interval := ⟨n, n, Int.le_refl n⟩

/-- The outcomes of a comparison. -/
def boolean : Interval := ⟨0, 1, by decide⟩

/-- Every integer with the given number of bits. -/
def ofWidth (bits : Int) (signed : Bool) : Except Mishap Interval := do
  let (lo, hi) ← bitRange bits signed
  make lo hi

private theorem foldl_min_le_foldl_max (n : Int) (ns : List Int) :
    ∀ m, n ≤ m → ns.foldl min n ≤ ns.foldl max m := by
  induction ns generalizing n with
  | nil => intro m h; exact h
  | cons k ks ih =>
    intro m h
    exact ih (min n k) (max m k) (by omega)

/-- The smallest interval that contains an integer and those of a list. -/
def span (n : Int) (ns : List Int) : Interval :=
  ⟨ns.foldl min n, ns.foldl max n, foldl_min_le_foldl_max n ns n (Int.le_refl n)⟩

/-! ## Order and lattice -/

def contains (a : Interval) (n : Int) : Bool := decide (a.lo ≤ n) && decide (n ≤ a.hi)

def leq (a b : Interval) : Bool := decide (b.lo ≤ a.lo) && decide (a.hi ≤ b.hi)

def isPoint (a : Interval) : Bool := decide (a.lo = a.hi)

def size (a : Interval) : Int := a.hi - a.lo + 1

/-- The smallest interval that contains both. -/
def join (a b : Interval) : Interval :=
  ⟨min a.lo b.lo, max a.hi b.hi, by have := a.lo_le_hi; omega⟩

/-- The common part, if there is one. -/
def meet (a b : Interval) : Option Interval :=
  let lo := max a.lo b.lo
  let hi := min a.hi b.hi
  if h : lo ≤ hi then some ⟨lo, hi, h⟩ else none

/-- The smallest interval that contains every interval of a list. -/
def hull : List Interval → Except Mishap Interval
  | [] => .error .emptyHull
  | a :: as => .ok (as.foldl join a)

/-! ## Widening

A bound that has to grow jumps to a threshold beyond it, if there is one, and otherwise only as far
as needed. -/

/-- The lower bound after widening from `a` by `b`: the last listed threshold that is low enough. -/
def widenLo (a b : Interval) (thresholds : List Int) : Int :=
  if b.lo < a.lo then ((thresholds.filter (· ≤ b.lo)).getLast?).getD b.lo else a.lo

/-- The upper bound after widening from `a` by `b`: the first listed threshold that is high
enough. -/
def widenHi (a b : Interval) (thresholds : List Int) : Int :=
  if a.hi < b.hi then ((thresholds.filter (b.hi ≤ ·)).head?).getD b.hi else a.hi

theorem widenLo_le (a b : Interval) (thresholds : List Int) :
    widenLo a b thresholds ≤ min a.lo b.lo := by
  unfold widenLo
  split
  · cases h : (thresholds.filter (· ≤ b.lo)).getLast? with
    | none => simp only [Option.getD_none]; omega
    | some t =>
      have := List.mem_filter.mp (List.mem_of_getLast? h)
      simp only [decide_eq_true_eq] at this
      simp only [Option.getD_some]
      omega
  · omega

theorem le_widenHi (a b : Interval) (thresholds : List Int) :
    max a.hi b.hi ≤ widenHi a b thresholds := by
  unfold widenHi
  split
  · cases h : (thresholds.filter (b.hi ≤ ·)).head? with
    | none => simp only [Option.getD_none]; omega
    | some t =>
      have := List.mem_filter.mp (List.mem_of_head? h)
      simp only [decide_eq_true_eq] at this
      simp only [Option.getD_some]
      omega
  · omega

/-- Widening with thresholds, which are used in the order given. -/
def widen (a b : Interval) (thresholds : List Int) : Interval :=
  ⟨widenLo a b thresholds, widenHi a b thresholds, by
    have := widenLo_le a b thresholds
    have := le_widenHi a b thresholds
    have := a.lo_le_hi
    omega⟩

/-! ## Arithmetic -/

def add (a b : Interval) : Interval :=
  ⟨a.lo + b.lo, a.hi + b.hi, by have := a.lo_le_hi; have := b.lo_le_hi; omega⟩

def sub (a b : Interval) : Interval :=
  ⟨a.lo - b.hi, a.hi - b.lo, by have := a.lo_le_hi; have := b.lo_le_hi; omega⟩

/-- Products: the corners bound them. -/
def mul (a b : Interval) : Interval :=
  span (a.lo * b.lo) [a.lo * b.hi, a.hi * b.lo, a.hi * b.hi]

/-- The divisors of one sign in an interval, as the pairs of their extremes. -/
def divisorParts (b : Interval) : List (Int × Int) :=
  (if b.lo < 0 then [(b.lo, min b.hi (-1))] else []) ++
    (if 0 < b.hi then [(max b.lo 1, b.hi)] else [])

/-- The quotients at the corners, and zero if the divisor may be zero. -/
def quotients (a b : Interval) : List Int :=
  (divisorParts b).flatMap (fun (c, d) ↦
    [Int.tdiv a.lo c, Int.tdiv a.lo d, Int.tdiv a.hi c, Int.tdiv a.hi d]) ++
    (if b.contains 0 then [0] else [])

/-- Quotients, truncated toward zero. The divisors are split by sign, because truncation is monotone
on each side of zero. -/
def div (a b : Interval) : Interval :=
  match quotients a b with
  | [] => point 0
  | q :: qs => span q qs

/-- The outcome of a comparison is zero or one. -/
def compare (_ _ : Interval) : Interval := boolean

/-- Wraps values into a range: values that fit stay, and one that does not may land anywhere in the
range. -/
def wrap (a : Interval) (lo hi : Int) : Except Mishap Interval :=
  if lo ≤ a.lo ∧ a.hi ≤ hi then .ok a else make lo hi

/-! ## Width and text -/

/-- The minimal width for every element. -/
def width (a : Interval) : BitWidth :=
  if 0 ≤ a.lo then ⟨max 1 (bitLength a.hi.toNat), false⟩
  else ⟨max (bitLength (-a.lo - 1).toNat) (bitLength a.hi.toNat) + 1, true⟩

def text (a : Interval) : String := s!"[{a.lo}, {a.hi}]"

/-- An interval as text with its type. -/
def describe (a : Interval) : String := s!"Interval([{a.lo}, {a.hi}])"

end Interval

end Datapath
