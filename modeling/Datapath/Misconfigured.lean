import Datapath.Json.Reader
import Datapath.Mishap

/-!
# Bad settings

What can be wrong with settings: a platform, a policy, the knobs of an analysis, a table of
weights, or a configuration file. Each cause has its wording here.
-/

namespace Datapath

/-- Why settings cannot be used. -/
inductive Misconfigured where
  /-- The iteration limit is below one. -/
  | maxIterations
  /-- The widening delay is negative. -/
  | wideningDelay
  /-- The default input width is below one. -/
  | inputBits
  /-- The depth threshold is negative. -/
  | negativeThreshold (threshold : Json)
  /-- A table of weights lacks some kinds. -/
  | missingWeights (kinds : List String)
  /-- A table of weights has negative entries. -/
  | negativeWeights (kinds : List String)
  /-- The margin of a strict policy is not positive. -/
  | marginNotPositive (margin : Json)
  /-- A margin is given for a policy that has none. -/
  | marginWithoutStrict (policy : String)
  /-- A strict policy has no margin. -/
  | noMargin
  | unknownPolicy (name : String)
  /-- A value is no rational. -/
  | notANumber (value : Json)
  /-- A ratio of weight to time is not positive. -/
  | ratioNotPositive (ratio : Json)
  /-- A clock period is not positive. -/
  | periodNotPositive (period : Json)
  /-- A clock frequency is not positive. -/
  | clockNotPositive (clock : Json)
  /-- A setting has a value of the wrong kind. -/
  | wrongKind (key expected : String) (value : Json)
  /-- Some settings do not exist. -/
  | unknownKeys (keys : List String)
  /-- The weights are no object. -/
  | weightsNotObject
  | unknownWeight (name : Json)
  | unknownSeverity (name : Json)
  /-- A configuration file cannot be opened. -/
  | unreadable (path problem : String)
  /-- A configuration file holds no document. -/
  | noDocument (path : String) (error : Json.ReadError)
  /-- A configuration file holds a document that is no object. -/
  | notAnObject (path : String)
  /-- An oracle command comes without a report. -/
  | commandWithoutReport

/-- The wording of a cause. -/
def Misconfigured.message : Misconfigured → String
  | .maxIterations => "max_iterations must be at least 1"
  | .wideningDelay => "widening_delay must be non-negative"
  | .inputBits => "default_input_bits must be at least 1"
  | .negativeThreshold threshold =>
    s!"depth threshold must be non-negative, got {threshold.plain}"
  | .missingWeights kinds => "weight table has no entry for: " ++ ", ".intercalate kinds
  | .negativeWeights kinds => "negative weight for: " ++ ", ".intercalate kinds
  | .marginNotPositive margin => s!"strict policy needs a positive margin, got {margin.plain}"
  | .marginWithoutStrict policy => s!"margin only applies to the strict policy, not {policy}"
  | .noMargin => "strict policy needs a margin"
  | .unknownPolicy name =>
    s!"unknown policy {Text.quoted name} (expected one of: warn, error, strict)"
  | .notANumber value => s!"not a number: {value.display}"
  | .ratioNotPositive ratio => s!"ns_per_weight_unit must be positive, got {ratio.plain}"
  | .periodNotPositive period => s!"clock_period_ns must be positive, got {period.plain}"
  | .clockNotPositive clock => s!"clock frequency must be positive, got {clock.plain}"
  | .wrongKind key expected value =>
    s!"'{key}' must be {expected}, got {value.kindName} {value.display}"
  | .unknownKeys keys => "unknown configuration key(s): " ++ ", ".intercalate keys
  | .weightsNotObject => "'weights' must be an object mapping kind to weight"
  | .unknownWeight name => s!"unknown operation kind in weights: '{name.plain}'"
  | .unknownSeverity name => s!"unknown depth_severity '{name.plain}'"
  | .unreadable path problem => s!"cannot read configuration {path}: {problem}"
  | .noDocument path error => s!"{path}: invalid JSON: {error.message}"
  | .notAnObject path => s!"{path}: configuration must be a JSON object"
  | .commandWithoutReport => "--oracle-cmd needs --report to locate the timing summary"

/-- The values that a cause shows in its wording. -/
def Misconfigured.values : Misconfigured → List Json
  | .negativeThreshold value => [value]
  | .marginNotPositive value => [value]
  | .notANumber value => [value]
  | .ratioNotPositive value => [value]
  | .periodNotPositive value => [value]
  | .clockNotPositive value => [value]
  | .wrongKind _ _ value => [value]
  | .unknownWeight value => [value]
  | .unknownSeverity value => [value]
  | _ => []

/-- Why settings are refused: for a cause of their own, or because a value could not be used at
all. -/
inductive Refusal where
  /-- A cause of their own. -/
  | misconfigured (cause : Misconfigured)
  /-- A value that could not be used. -/
  | mishap (cause : Mishap)

end Datapath
