import Datapath.Depth
import Datapath.Json.Arithmetic
import Datapath.Rough.Layout

/-!
# Depths with weights of any kind

Weights and thresholds that are numbers of any kind can be added and compared, so the measurement of
depths works with them as it does with integers. Weights that are no numbers are refused with the
table, and a threshold that is none when it is compared with zero.

A sum of an integer and a double is a double, and an integer beyond the doubles has no such sum. The
total weight of a path is therefore a *load*: a number, or a sum that does not exist. Depths are
found in operand order, so the first load that does not exist is where the measurement fails.
-/

namespace Datapath

/-- The total weight of a path. -/
inductive Load where
  /-- A number. -/
  | amount (value : Number)
  /-- A sum that does not exist. -/
  | excessive
deriving DecidableEq, Repr, Inhabited

namespace Load

instance : Zero Load := ⟨.amount (.int 0)⟩

def sum : Load → Load → Load
  | .amount a, .amount b =>
    match a.combine (· + ·) Double.add b with
    | .ok c => .amount c
    | .error _ => .excessive
  | _, _ => .excessive

instance : Add Load := ⟨sum⟩

def isBelow : Load → Load → Bool
  | .amount a, .amount b => a.value.lt b.value
  | _, _ => false

instance : LT Load := ⟨fun a b ↦ a.isBelow b = true⟩

instance : DecidableLT Load := fun a b ↦ inferInstanceAs (Decidable (a.isBelow b = true))

/-- A load as it is shown. -/
def toJson : Load → Json
  | .amount value => value.toJson
  | .excessive => .null

end Load

/-- A weight of any kind for every kind of operation, as it was given. -/
structure RoughWeights where
  /-- The weights, each kind once. -/
  weights : List (Kind × Json)

namespace RoughWeights

/-- The weights with the given ones in place, if they are complete and none is below zero. -/
def make (weights : List (Kind × Json)) : Except Refusal RoughWeights := do
  let missing := missingKinds weights
  unless missing.isEmpty do
    throw (.misconfigured (.missingWeights (missing.map Kind.name)))
  let negative ← (weights.filterM fun (entry : Kind × Json) ↦
    entry.2.compare .less (.int 0)).mapError Refusal.mishap
  unless negative.isEmpty do
    throw (.misconfigured (.negativeWeights (negative.map (·.1.name))))
  return ⟨weights⟩

def ofTable (t : WeightTable) : RoughWeights := ⟨t.weights.map fun (k, w) ↦ (k, .int w)⟩

/-- The usual weights with some replaced. -/
def override (weights : List (Kind × Json)) : Except Refusal RoughWeights :=
  make (WeightTable.setWeights (ofTable .default).weights weights)

/-- The table that the weights make, if they are integers. -/
def table? (w : RoughWeights) : Option WeightTable := do
  let weights ← w.weights.mapM fun
    | (k, .int n) => some (k, n)
    | _ => none
  (WeightTable.make weights).toOption

def weight (w : RoughWeights) (k : Kind) : Load :=
  .amount (((w.weights.lookup k).bind Json.number?).getD (.int 0))

end RoughWeights

namespace RoughGraph

/-- A node whose consumers are not all in an order. -/
def strayConsumer? (g : Graph) (order : List Int) : Option Int :=
  order.reverse.findSome? fun id ↦ (g.consumers id).find? fun n ↦ !order.contains n

/-- Measures depths in terms of the numbers of nodes, given which depths do not exist and how those
that do and the threshold are shown. -/
def measureDepth {δ : Type} [Add δ] [OfNat δ 0] [LT δ] [DecidableLT δ] (m : Machine)
    (g : RoughGraph) (weight : Kind → δ) (threshold : δ) (isLost : δ → Bool) (depth : δ → Json)
    (shown : Json) (severity : Severity) : Except Failure (DepthResultOf δ) := do
  let layout ← g.layout m
  let skeleton := g.skeleton
  let display : Depth.Display δ := ⟨g.idOf, g.placeOf, depth, shown⟩
  let records ← tried (Depth.records skeleton weight layout.order)
  if records.any fun (_, record) ↦ isLost record.depth then throw (.mishap .integerTooLarge)
  if let some number := strayConsumer? skeleton layout.order then
    throw (.mishap (.noSuchKey (g.idOf number)))
  (Depth.measure skeleton layout.order weight threshold display severity).mapError fun
    | .noSuchNode number => .mishap (.noSuchKey (g.idOf number))
    | cause => .mishap cause

end RoughGraph

end Datapath
