import Datapath.Interval
import Datapath.Misconfigured

/-!
# Knobs of width inference

How often a feedback loop is evaluated at most, after how many evaluations widening starts, and what
is assumed about inputs without a declared range. The limits on these are part of the type.
-/

namespace Datapath

/-- The knobs of width inference. -/
structure Tuning where
  /-- The most evaluations of a feedback loop. -/
  maxIterations : Int
  /-- The evaluations before widening starts. -/
  wideningDelay : Int
  /-- The width of an input without a declared range. -/
  inputBits : Int
  /-- Whether such an input is in two's complement. -/
  inputSigned : Bool
  maxIterations_pos : 1 ≤ maxIterations
  wideningDelay_nonneg : 0 ≤ wideningDelay
  inputBits_pos : 1 ≤ inputBits

namespace Tuning

def default : Tuning := ⟨256, 3, 32, false, by decide, by decide, by decide⟩

instance : Inhabited Tuning := ⟨default⟩

/-- Knobs with the given settings, if they are within their limits. -/
def make (maxIterations wideningDelay inputBits : Int) (inputSigned : Bool) :
    Except Misconfigured Tuning :=
  if h₁ : 1 ≤ maxIterations then
    if h₂ : 0 ≤ wideningDelay then
      if h₃ : 1 ≤ inputBits then
        .ok ⟨maxIterations, wideningDelay, inputBits, inputSigned, h₁, h₂, h₃⟩
      else .error .inputBits
    else .error .wideningDelay
  else .error .maxIterations

/-- The values of an input without a declared range. -/
def inputInterval (t : Tuning) : Except Mishap Interval :=
  Interval.ofWidth t.inputBits t.inputSigned

end Tuning

end Datapath
