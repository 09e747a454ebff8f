import Datapath.Diagnostic
import Datapath.Graph.Layout
import Datapath.Misconfigured

/-!
# Combinational depth

Every kind of operation has a weight, and the depth of a node is the greatest total weight of a path
of operands that ends at it. One pass in operand order computes the depth of every node together
with a path that attains it; of several deepest operands the earliest is taken. A path that ends at
a register write or an output and is deeper than a threshold is reported.

Weights are integers that are not negative. The pass itself only adds and compares, so it is written
for any type of weight that can be added and compared.
-/

namespace Datapath

/-! ## Weights -/

/-- The kinds that a list of weights lacks. -/
def missingKinds {ω : Type} (weights : List (Kind × ω)) : List Kind :=
  Kind.all.filter fun k ↦ (weights.lookup k).isNone

/-- The kinds to which a list of weights gives a negative weight. -/
def negativeKinds (weights : List (Kind × Int)) : List Kind :=
  (weights.filter (·.2 < 0)).map (·.1)

/-- A weight for every kind, none of them negative. -/
structure WeightTable where
  /-- The weights, each kind once. -/
  weights : List (Kind × Int)
  complete : missingKinds weights = []
  nonneg : negativeKinds weights = []

namespace WeightTable

/-- A table with the given weights, if they are complete and not negative. -/
def make (weights : List (Kind × Int)) : Except Misconfigured WeightTable :=
  if h₁ : missingKinds weights = [] then
    if h₂ : negativeKinds weights = [] then .ok ⟨weights, h₁, h₂⟩
    else .error (.negativeWeights ((negativeKinds weights).map Kind.name))
  else .error (.missingWeights ((missingKinds weights).map Kind.name))

/-- The weights that are used unless others are given: arithmetic and choice cost, routing does
not. -/
def defaultWeights : List (Kind × Int) :=
  [(.const, 0), (.input, 0), (.add, 1), (.sub, 1), (.mul, 2), (.div, 2), (.compare, 1), (.mux, 1),
    (.varRef, 0), (.binding, 0), (.fieldGet, 0), (.regRead, 0), (.regWrite, 0), (.output, 0)]

def default : WeightTable := ⟨defaultWeights, by decide, by decide⟩

instance : Inhabited WeightTable := ⟨default⟩

/-- Sets the weight of a kind: one that is already listed keeps its place. -/
def setWeight {ω : Type} (kind : Kind) (weight : ω) : List (Kind × ω) → List (Kind × ω)
  | [] => [(kind, weight)]
  | (k, w) :: rest => if k = kind then (k, weight) :: rest else (k, w) :: setWeight kind weight rest

def setWeights {ω : Type} (weights replaced : List (Kind × ω)) : List (Kind × ω) :=
  replaced.foldl (fun ws (k, w) ↦ setWeight k w ws) weights

/-- A table with some weights replaced. -/
def override (t : WeightTable) (weights : List (Kind × Int)) : Except Misconfigured WeightTable :=
  make (setWeights t.weights weights)

def weight (t : WeightTable) (k : Kind) : Int := (t.weights.lookup k).getD 0

end WeightTable

/-! ## Results -/

/-- The depth of a node, with a path that attains it. -/
structure DepthRecordOf (δ : Type) where
  id : Int
  /-- The greatest total weight of a path that ends at the node. -/
  depth : δ
  /-- Such a path. -/
  chain : List Int
deriving DecidableEq, Repr, Inhabited

/-- The depth of a node as an integer, with a path that attains it. -/
abbrev DepthRecord := DepthRecordOf Int

/-- A deepest path into a register write or an output. -/
structure PathReportOf (δ : Type) where
  /-- The node at which the path ends. -/
  terminal : Int
  /-- Where the path leads. -/
  classification : PathClass
  /-- The depth of the path. -/
  depth : δ
  chain : List Int
  /-- The kinds of those nodes. -/
  kinds : List Kind
deriving DecidableEq, Repr, Inhabited

/-- A deepest path whose depth is an integer. -/
abbrev PathReport := PathReportOf Int

/-- Whether a path is deeper than a threshold. -/
def PathReportOf.exceeds {δ : Type} [LT δ] [DecidableLT δ] (p : PathReportOf δ) (threshold : δ) :
    Bool :=
  decide (threshold < p.depth)

/-- The classes of terminal that can be reached from a node. -/
structure Reach where
  /-- Some register write can be reached. -/
  state : Bool
  /-- Some output can be reached. -/
  outside : Bool
deriving DecidableEq, Repr, Inhabited

namespace Reach

/-- What either of two nodes reaches. -/
def union (a b : Reach) : Reach := ⟨a.state || b.state, a.outside || b.outside⟩

/-- What a node reaches by itself. -/
def own (k : Kind) : Reach := ⟨k = .regWrite, k = .output⟩

/-- The names of the classes reached, in order. -/
def names (r : Reach) : List String :=
  (if r.state then [PathClass.feedbackToState.name] else []) ++
    (if r.outside then [PathClass.feedforward.name] else [])

end Reach

/-- The depths of a graph. -/
structure DepthResultOf (δ : Type) where
  /-- The depth of each node, in operand order. -/
  records : List (Int × DepthRecordOf δ)
  /-- A deepest path into each terminal, in node order. -/
  paths : List (PathReportOf δ)
  /-- A finding for each path deeper than the threshold. -/
  diagnostics : List Diagnostic
  /-- What each node reaches, in operand order. -/
  classes : List (Int × Reach)
  threshold : δ

/-- The depths of a graph as integers. -/
abbrev DepthResult := DepthResultOf Int

/-- The first of the deepest paths. -/
def DepthResultOf.worst? {δ : Type} [LT δ] [DecidableLT δ] (r : DepthResultOf δ) :
    Option (PathReportOf δ) :=
  match r.paths with
  | [] => none
  | p :: ps => some (ps.foldl (fun a b ↦ if a.depth < b.depth then b else a) p)

namespace Depth

/-- Why the depths cannot be computed. -/
inductive Failure where
  /-- The threshold is negative. -/
  | misconfigured (cause : Misconfigured)
  /-- The graph is not legal. -/
  | malformed (cause : Malformed)
  /-- A depth is not there when it is needed. -/
  | mishap (cause : Mishap)

/-- How findings show what they are about. -/
structure Display (δ : Type) where
  node : Int → Json
  place : Int → Option Place
  depth : δ → Json
  threshold : Json

/-- How findings about a graph show what they are about. -/
def display (g : Graph) (threshold : Int) : Display Int where
  node := .int
  place id := ((g.node? id).bind (·.span)).map Span.place
  depth := .int
  threshold := .int threshold

variable {δ : Type} [Add δ] [OfNat δ 0] [LT δ] [DecidableLT δ]

def lookup (records : List (Int × DepthRecordOf δ)) (id : Int) :
    Except Mishap (DepthRecordOf δ) :=
  match records.lookup id with
  | some record => .ok record
  | none => .error (.noSuchNode id)

/-- The first of the deepest records. -/
def deepest? : List (DepthRecordOf δ) → Option (DepthRecordOf δ)
  | [] => none
  | r :: rs => some (rs.foldl (fun a b ↦ if a.depth < b.depth then b else a) r)

/-- The record of a node from the records of its operands. -/
def extend (weight : Kind → δ) (n : Node) (operands : List (DepthRecordOf δ)) : DepthRecordOf δ :=
  match deepest? operands with
  | none => ⟨n.id, 0 + weight n.kind, [n.id]⟩
  | some best => ⟨n.id, best.depth + weight n.kind, best.chain ++ [n.id]⟩

def records (g : Graph) (weight : Kind → δ) (order : List Int) :
    Except Mishap (List (Int × DepthRecordOf δ)) :=
  order.foldlM (fun found id ↦
    match g.node? id with
    | none => .error (.noSuchNode id)
    | some n => do
      let operands ← n.operands.mapM (lookup found)
      return found ++ [(id, extend weight n operands)]) []

/-- What each node of an order reaches, from the last to the first. -/
def classes (g : Graph) (order : List Int) : List (Int × Reach) :=
  order.foldr (fun id found ↦
    let reached := (g.consumers id).foldl
      (fun reach consumer ↦ reach.union ((found.lookup consumer).getD ⟨false, false⟩))
      (Reach.own (g.kindOf id))
    (id, reached) :: found) []

/-- Where a path that ends at a node leads. -/
def terminalClass (g : Graph) (id : Int) : PathClass :=
  if g.kindOf id = .regWrite then .feedbackToState else .feedforward

def report (g : Graph) (found : List (Int × DepthRecordOf δ)) (id : Int) :
    Except Mishap (PathReportOf δ) := do
  let record ← lookup found id
  return {
    terminal := id
    classification := terminalClass g id
    depth := record.depth
    chain := record.chain
    kinds := record.chain.map g.kindOf }

/-- The finding about a path that is too deep. It points at the last node of the path that has a
place. -/
def diagnose (d : Display δ) (severity : Severity) (p : PathReportOf δ) : Diagnostic :=
  let target := if p.classification = .feedbackToState then "register write" else "output"
  let depth := d.depth p.depth
  let terminal := d.node p.terminal
  { severity
    id := Diagnostic.depthThresholdExceeded
    message := .str (s!"combinational depth {depth.plain} into {target} n{terminal.plain} " ++
      s!"exceeds threshold {d.threshold.plain}")
    kinds := p.kinds.map Kind.name
    nodes := p.chain.map d.node
    place := p.chain.reverse.findSome? d.place
    depth
    threshold := d.threshold
    classification := some p.classification }

/-- Measures the depth of every node of a graph with a known order of operations, and reports the
paths deeper than a threshold. -/
def measure (g : Graph) (order : List Int) (weight : Kind → δ) (threshold : δ) (d : Display δ)
    (severity : Severity) : Except Mishap (DepthResultOf δ) := do
  let records ← records g weight order
  let paths ← g.terminals.mapM (report g records)
  return {
    records
    paths
    diagnostics := (paths.filter (·.exceeds threshold)).map (diagnose d severity)
    classes := classes g order
    threshold }

end Depth

/-- Measures the depth of every node, and reports the paths deeper than a threshold. -/
def Graph.measureDepth (g : Graph) (w : WeightTable) (threshold : Int) (severity : Severity) :
    Except Depth.Failure DepthResult := do
  if threshold < 0 then throw (.misconfigured (.negativeThreshold (.int threshold)))
  let layout ← g.layout.mapError .malformed
  (Depth.measure g layout.order w.weight threshold (Depth.display g threshold) severity).mapError
    .mishap

end Datapath
