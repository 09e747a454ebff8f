import Datapath.Misconfigured
import Datapath.Number
import Datapath.Text.Literal

/-!
# Platforms

A platform says how long a unit of weight takes and how long a clock period is. The threshold is the
greatest depth that fits a period.

## Exactness

Both constants are read as the decimals or fractions that were written, and the division is exact:
a period of 40 at 1.6 per unit gives 25, whatever the nearest double of 1.6 is. The constants are
kept as they were given, so that they can be shown as they were given.
-/

namespace Datapath

/-- The timing constants of a target. -/
structure Platform where
  /-- Nanoseconds per unit of weight. -/
  unitTime : Json
  /-- The clock period in nanoseconds. -/
  period : Json
  /-- The greatest depth that fits a period. -/
  threshold : Int

namespace Platform

/-- The rational that a value spells. -/
def exact (value : Json) : Except Refusal Rat :=
  match Literal.rat? value.plain with
  | some q => .ok q
  | none => .error (.misconfigured (.notANumber value))

/-- A platform with the given constants. -/
def make (unitTime period : Json) : Except Refusal Platform := do
  let u ← exact unitTime
  let t ← exact period
  if u ≤ 0 then throw (.misconfigured (.ratioNotPositive unitTime))
  if t ≤ 0 then throw (.misconfigured (.periodNotPositive period))
  return { unitTime, period, threshold := (t / u).floor }

/-- The nearest double to a rational, if there is one. -/
def nearest (q : Rat) : Except Refusal Double :=
  match Double.ofRat q with
  | .infinite _ => .error (.mishap .ratioTooLarge)
  | x => .ok x

/-- A platform with a clock frequency in megahertz. The constants become doubles on the way. -/
def ofClock (frequency unitTime : Json) : Except Refusal Platform := do
  let f ← exact frequency
  if f ≤ 0 then throw (.misconfigured (.clockNotPositive frequency))
  let u ← nearest (← exact unitTime)
  let t ← nearest (1000 / f)
  make (.real u) (.real t)

def text (p : Platform) : Except Mishap String := do
  let period ← p.period.rounded
  let unitTime ← p.unitTime.rounded
  return s!"clock {period} ns / {unitTime} ns per unit -> threshold {p.threshold}"

end Platform

end Datapath
