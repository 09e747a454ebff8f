import Datapath.Extent
import Datapath.Tuning

/-!
# Knobs as they are given

The knobs of width inference before anybody has looked at them. They are checked against their
limits by value, and otherwise kept as they are: a knob of the wrong kind is noticed when it is
used. Knobs that are integers make a `Tuning`.
-/

namespace Datapath

/-- The knobs of width inference, as they were given. -/
structure Knobs where
  /-- The most evaluations of a feedback loop. -/
  maxIterations : Json
  /-- The evaluations before widening starts. -/
  wideningDelay : Json
  /-- The width of an input without a declared range. -/
  inputBits : Json
  /-- Whether such an input is in two's complement. -/
  inputSigned : Json
deriving Inhabited

namespace Knobs

def default : Knobs := ⟨.int 256, .int 3, .int 32, .bool false⟩

/-- The knobs, each with its key. -/
def fields (k : Knobs) : List (String × Json) :=
  [("max_iterations", k.maxIterations), ("widening_delay", k.wideningDelay),
    ("default_input_bits", k.inputBits), ("default_input_signed", k.inputSigned)]

/-- Replaces the knob with a key, if there is one. -/
def set? (k : Knobs) (key : String) (value : Json) : Option Knobs :=
  match key with
  | "max_iterations" => some { k with maxIterations := value }
  | "widening_delay" => some { k with wideningDelay := value }
  | "default_input_bits" => some { k with inputBits := value }
  | "default_input_signed" => some { k with inputSigned := value }
  | _ => none

/-- The usual knobs with some replaced. -/
def ofEntries (entries : List (String × Json)) : Except Mishap Knobs :=
  entries.foldlM (fun k (key, value) ↦
    match k.set? key value with
    | some k => .ok k
    | none => .error (.unknownField "SeedPolicy" key)) default

/-- Refuses a knob that is below a limit. -/
def refuseBelow (value : Json) (limit : Int) (cause : Misconfigured) : Except Refusal Unit := do
  if ← (value.compare .less (.int limit)).mapError .mishap then throw (.misconfigured cause)

def check (k : Knobs) : Except Refusal Unit := do
  refuseBelow k.maxIterations 1 .maxIterations
  refuseBelow k.wideningDelay 0 .wideningDelay
  refuseBelow k.inputBits 1 .inputBits

/-- The tuning that the knobs make, if they are integers within their limits. -/
def tuning? (k : Knobs) : Option Tuning :=
  match k.maxIterations, k.wideningDelay, k.inputBits with
  | .int m, .int d, .int b => (Tuning.make m d b k.inputSigned.isTrue).toOption
  | _, _, _ => none

/-- The values of an input without a declared range. -/
def inputExtent (k : Knobs) (m : Machine) : Except Mishap Extent :=
  Extent.ofWidth m k.inputBits k.inputSigned

end Knobs

end Datapath
