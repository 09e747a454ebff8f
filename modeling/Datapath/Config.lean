import Datapath.Depth
import Datapath.Json.Reading
import Datapath.Json.Sorting
import Datapath.Knobs
import Datapath.Platform
import Datapath.Policy

/-!
# Configurations

A configuration holds the settings of one run: the platform, the policy, the knobs of inference and
the weights. A setting is kept as it was given. What a run needs is built from the settings on
demand, and each part says for itself what it cannot use.

A document is checked against the kinds of value that its settings may have; the settings of a
command line come with the right kinds. `Config.warnings` looks at the values.
-/

namespace Datapath

/-- The settings of a run, as they were given. -/
structure Config where
  /-- The clock frequency in megahertz. -/
  clock : Json
  /-- Nanoseconds per unit of weight. -/
  unitTime : Json
  /-- The name of the policy. -/
  policy : Json
  /-- The margin of a strict policy. -/
  margin : Json
  /-- Whether structural findings are treated as errors. -/
  elevate : Json
  /-- The severity of structural findings. -/
  severity : Json
  /-- The most evaluations of a feedback loop. -/
  maxIterations : Json
  /-- The evaluations before widening starts. -/
  wideningDelay : Json
  /-- The width of an input without a declared range. -/
  inputBits : Json
  /-- Whether such an input is in two's complement. -/
  inputSigned : Json
  /-- Weights that replace the usual ones. -/
  weights : Json

namespace Config

/-- The settings that are used unless others are given. -/
def default : Config where
  clock := .real (Double.ofRat 25)
  unitTime := .real (Double.ofRat (8 / 5))
  policy := .str "warn"
  margin := .null
  elevate := .bool false
  severity := .str "info"
  maxIterations := .int 256
  wideningDelay := .int 3
  inputBits := .int 32
  inputSigned := .bool false
  weights := .obj []

instance : Inhabited Config := ⟨default⟩

/-! ## Keys -/

/-- The settings other than the weights, each with its key. -/
def fields (c : Config) : List (String × Json) :=
  [("clock_mhz", c.clock), ("ns_per_weight_unit", c.unitTime), ("policy", c.policy),
    ("margin_ns", c.margin), ("elevate", c.elevate), ("depth_severity", c.severity),
    ("max_iterations", c.maxIterations), ("widening_delay", c.wideningDelay),
    ("default_input_bits", c.inputBits), ("default_input_signed", c.inputSigned)]

/-- Replaces the setting with a key, if there is one. -/
def set? (c : Config) (key : String) (value : Json) : Option Config :=
  match key with
  | "clock_mhz" => some { c with clock := value }
  | "ns_per_weight_unit" => some { c with unitTime := value }
  | "policy" => some { c with policy := value }
  | "margin_ns" => some { c with margin := value }
  | "elevate" => some { c with elevate := value }
  | "depth_severity" => some { c with severity := value }
  | "max_iterations" => some { c with maxIterations := value }
  | "widening_delay" => some { c with wideningDelay := value }
  | "default_input_bits" => some { c with inputBits := value }
  | "default_input_signed" => some { c with inputSigned := value }
  | "weights" => some { c with weights := value }
  | _ => none

/-- Whether a key names a setting. -/
def isKey (key : String) : Bool := (default.set? key .null).isSome

/-- Replaces several settings. -/
def setAll (c : Config) (entries : List (String × Json)) : Except Mishap Config :=
  entries.foldlM (fun c (key, value) ↦
    match c.set? key value with
    | some c => .ok c
    | none => .error (.unknownField "AnalysisConfig" key)) c

/-- Replaces the settings for which there is a value other than null. -/
def merge (c : Config) (entries : List (String × Json)) : Except Mishap Config :=
  c.setAll (entries.filter fun entry ↦ !(entry.2 == .null))

/-! ## Documents -/

/-- The kinds of value that a setting may have. -/
inductive ValueKind where
  | int
  | real
  | text
  | bool
  | null
deriving DecidableEq, Repr, Inhabited

def ValueKind.name : ValueKind → String
  | .int => "int"
  | .real => "float"
  | .text => "str"
  | .bool => "bool"
  | .null => "null"

def ValueKind.holds : ValueKind → Json → Bool
  | .int, .int _ => true
  | .real, .real _ => true
  | .text, .str _ => true
  | .bool, .bool _ => true
  | .null, .null => true
  | _, _ => false

/-- The kinds of value that the settings may have, in the order in which they are checked. -/
def expectedKinds : List (String × List ValueKind) :=
  [("clock_mhz", [.int, .real]), ("ns_per_weight_unit", [.int, .real]), ("policy", [.text]),
    ("margin_ns", [.int, .real, .null]), ("elevate", [.bool]), ("depth_severity", [.text]),
    ("max_iterations", [.int]), ("widening_delay", [.int]), ("default_input_bits", [.int]),
    ("default_input_signed", [.bool])]

def checkKind (key : String) (expected : List ValueKind) (value : Json) :
    Except Misconfigured Unit :=
  if expected.any (·.holds value) then .ok ()
  else .error (.wrongKind key (" or ".intercalate (expected.map ValueKind.name)) value)

def checkWeights : Json → Except Misconfigured Unit
  | .obj entries => entries.forM fun (name, weight) ↦ checkKind s!"weights.{name}" [.int] weight
  | _ => .error .weightsNotObject

def refuseUnknown (keys : List String) : Except Refusal Unit :=
  match keys.filter fun key ↦ !isKey key with
  | [] => .ok ()
  | unknown =>
    .error (.misconfigured (.unknownKeys (unknown.mergeSort fun a b ↦ decide (a ≤ b))))

/-- The configuration of an object. -/
def ofEntries (entries : List (String × Json)) : Except Refusal Config := do
  refuseUnknown (entries.map (·.1))
  (expectedKinds.forM fun (key, expected) ↦
    match entries.lookup key with
    | some value => checkKind key expected value
    | none => pure ()).mapError .misconfigured
  (checkWeights ((entries.lookup "weights").getD (.obj []))).mapError .misconfigured
  (default.setAll entries).mapError .mishap

/-- Different items, each as it first appears. -/
def distinct (items : List Json) : List Json :=
  items.foldl (fun found item ↦ if found.any (·.sameName item) then found else found ++ [item]) []

/-- The configuration of a document. In one that is no object, items are looked at as keys before
values are asked for. -/
def ofDocument (document : Json) : Except Refusal Config :=
  match document with
  | .obj entries => ofEntries entries
  | other => do
    let items ← other.toItems.mapError .mishap
    if let some item := items.find? (!·.isKey) then throw (.mishap (.unhashable item.kindName))
    let isKnown : Json → Bool
      | .str key => isKey key
      | _ => false
    let unknown ← (Json.sortBy id (distinct (items.filter (!isKnown ·)))).mapError .mishap
    refuseUnknown (← (Json.joinable unknown).mapError .mishap)
    if expectedKinds.any fun (key, _) ↦ items.any (·.sameName (.str key)) then
      throw (.mishap (.notAnIndex "str"))
    throw (.mishap (.noOperation other.kindName "get"))

/-! ## Warnings -/

/-- The replaced weights. -/
def weightEntries (c : Config) : Except Mishap (List (String × Json)) :=
  match c.weights with
  | .obj entries => .ok entries
  | other => .error (.noOperation other.kindName "items")

/-- The warning about a replaced weight. -/
def weightWarning (name : String) (weight : Json) : Except Mishap (List String) :=
  if (Kind.ofName? name).isNone then .ok [s!"unknown operation kind in weights: '{name}'"]
  else do
    return if ← weight.compare .less (.int 0)
      then [s!"weight for '{name}' must be non-negative"] else []

/-- Whether a severity is known. -/
def isSeverity : Json → Except Mishap Bool
  | .str name => .ok (Severity.ofName? name).isSome
  | value => if value.isKey then .ok false else .error (.unhashable value.kindName)

/-- What is doubtful about a configuration. -/
def warnings (c : Config) : Except Mishap (List String) := do
  let given (condition : Bool) (warning : String) : List String :=
    if condition then [warning] else []
  let clock := given (← c.clock.compare .atMost (.int 0)) "clock_mhz must be positive"
  let unitTime := given (← c.unitTime.compare .atMost (.int 0))
    "ns_per_weight_unit must be positive"
  let limit := given (← c.maxIterations.compare .less (.int 1))
    "max_iterations must be at least 1"
  let delay := given (← c.wideningDelay.compare .less (.int 0))
    "widening_delay must be non-negative"
  let late := given (← c.wideningDelay.compare .atLeast c.maxIterations)
    "widening_delay >= max_iterations: widening never applies"
  let margin := given (!(c.margin == .null) && !(c.policy == .str "strict"))
    s!"margin_ns is ignored under policy '{c.policy.plain}'"
  let weights ← (← c.weightEntries).mapM fun (name, weight) ↦ weightWarning name weight
  let severity := given (!(← isSeverity c.severity))
    s!"unknown depth_severity '{c.severity.plain}'"
  return clock ++ unitTime ++ limit ++ delay ++ late ++ margin ++ weights.flatten ++ severity

/-! ## The parts of a run -/

def platform (c : Config) : Except Refusal Platform := Platform.ofClock c.clock c.unitTime

/-- The policy. Only a strict one takes the margin. -/
def gatePolicy (c : Config) : Except Refusal Policy :=
  let margin := match c.policy == .str "strict", c.margin with
    | true, .null => none
    | true, margin => some margin
    | false, _ => none
  Policy.parse c.policy margin

/-- The knobs of inference, as they were given. -/
def knobs (c : Config) : Knobs := ⟨c.maxIterations, c.wideningDelay, c.inputBits, c.inputSigned⟩

/-- A setting that counts something. -/
def count : Json → Except Mishap Int
  | .int n => .ok n
  | .bool b => .ok (if b then 1 else 0)
  | value => .error (.notACount value.kindName)

/-- The knobs of inference. -/
def tuning (c : Config) : Except Refusal Tuning := do
  c.knobs.check
  let maxIterations ← (count c.maxIterations).mapError .mishap
  let wideningDelay ← (count c.wideningDelay).mapError .mishap
  let inputBits ← (count c.inputBits).mapError .mishap
  (Tuning.make maxIterations wideningDelay inputBits c.inputSigned.isTrue).mapError .misconfigured

/-- The kind and the weight of a replaced weight. -/
def replacement (name : String) (weight : Json) : Except Refusal (Kind × Int) :=
  match weight.toInt, Kind.ofName? name with
  | .ok n, some kind => .ok (kind, n)
  | .ok _, none => .error (.misconfigured (.unknownWeight (.str name)))
  | .error (.notAnInteger _), _ => .error (.misconfigured (.unknownWeight (.str name)))
  | .error .nanAsInteger, _ => .error (.misconfigured (.unknownWeight (.str name)))
  | .error cause, _ => .error (.mishap cause)

def table (c : Config) : Except Refusal WeightTable := do
  let entries ← c.weightEntries.mapError .mishap
  let weights ← entries.mapM fun (name, weight) ↦ replacement name weight
  (WeightTable.default.override weights).mapError .misconfigured

/-- The severity of structural findings. Findings that are treated as errors are errors. -/
def findingSeverity (c : Config) : Except Refusal Severity :=
  if c.elevate.isTrue then .ok .error
  else
    let known := match c.severity with
      | .str name => Severity.ofName? name
      | _ => none
    match known with
    | some severity => .ok severity
    | none => .error (.misconfigured (.unknownSeverity c.severity))

end Config

end Datapath
