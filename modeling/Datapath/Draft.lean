import Datapath.Assessment
import Datapath.Rough.Depth
import Datapath.Rough.Inference

/-!
# Drafts

A draft is what becomes of a graph that is built step by step from document values. As long as every
part is of the right kind the draft *is* a graph, and every step and question is one of `Graph`. The
first part of another kind makes it a rough graph, and so it stays.

Answers about a draft are document values, because ids may be.
-/

namespace Datapath

/-- A graph, or what should have become one. -/
inductive Draft where
  /-- Every part is of the right kind. -/
  | fair (graph : Graph)
  /-- Some part is not. -/
  | rough (graph : RoughGraph)

namespace Draft

/-- The draft without nodes and registers. -/
def empty : Draft := .fair .empty

instance : Inhabited Draft := ⟨empty⟩

def toRough : Draft → RoughGraph
  | .fair g => .ofGraph g
  | .rough g => g

/-! ## Building -/

/-- Adds an operation to a rough graph. A step that leaves no trace does not make a draft rough. -/
def addRoughly (d : Draft) (o : RoughOperation) (id? : Option Json) : Draft × Except Failure Json :=
  let before := d.toRough
  let (after, outcome) := before.add o id?
  (if after.nodes.length = before.nodes.length then d else .rough after, outcome)

/-- Adds an operation as a node with the given id, or else with a fresh one. -/
def add (d : Draft) (o : RoughOperation) (id? : Option Json) : Draft × Except Failure Json :=
  let fairId : Option (Option Int) := match id? with
    | none => some none
    | some (.int n) => some (some n)
    | some _ => none
  match d, o.operation?, fairId with
  | .fair g, some operation, some id =>
    match g.add operation id with
    | .ok (g, id) => (.fair g, .ok (.int id))
    | .error cause => (d, .error (.malformed cause))
  | d, _, _ => d.addRoughly o id?

def declare (d : Draft) (r : RoughRegister) : Except Failure Draft :=
  match d, r.register? with
  | .fair g, some register => ((g.declare register).mapError Failure.malformed).map .fair
  | d, _ => (d.toRough.declare r).map .rough

/-! ## Questions about nodes -/

/-- The number that an id is in a graph. -/
def numberOf (id : Json) : Except Mishap (Option Int) := do
  RoughGraph.requireKey id
  return id.integral?

def nodes : Draft → List RoughNode
  | .fair g => g.nodes.map .ofNode
  | .rough g => g.nodes

def registers : Draft → List RoughRegister
  | .fair g => g.registers.map .ofRegister
  | .rough g => g.registers

def node? (d : Draft) (id : Json) : Except Mishap (Option RoughNode) :=
  match d with
  | .fair g => do return ((← numberOf id).bind g.node?).map .ofNode
  | .rough g => g.node? id

/-- The node with an id, which must be there. -/
def node (d : Draft) (id : Json) : Except Mishap RoughNode := do
  match ← d.node? id with
  | some n => return n
  | none => throw (.noSuchKey id)

/-- The nodes that use a node as an operand, once for each use. -/
def consumers (d : Draft) (id : Json) : Except Mishap (List Json) :=
  match d with
  | .fair g => do return ((← numberOf id).elim [] g.consumers).map .int
  | .rough g => g.consumers id

/-- What a node depends on. -/
def dependencies (d : Draft) (id : Json) : Except Mishap (List Json) :=
  match d with
  | .fair g => do
    match (← numberOf id).bind g.node? with
    | some n => return (g.nodeDependencies n).map .int
    | none => throw (.noSuchKey id)
  | .rough g => g.dependencies id

/-- The nodes at which paths of operations end. -/
def terminals : Draft → List Json
  | .fair g => g.terminals.map .int
  | .rough g => g.terminals

/-! ## Questions about registers -/

def reads (d : Draft) (name : Json) : Except Mishap (List Json) :=
  match d with
  | .fair g => do
    RoughGraph.requireKey name
    return (g.reads name).map .int
  | .rough g => g.reads name

/-- The consumers of every read of a register. -/
def readConsumers (d : Draft) (name : Json) : Except Mishap (List Json) :=
  match d with
  | .fair g => do
    RoughGraph.requireKey name
    return (g.readConsumers name).map .int
  | .rough g => g.readConsumers name

/-- The first write of a register. -/
def write? (d : Draft) (name : Json) : Except Mishap (Option Json) :=
  match d with
  | .fair g => do
    RoughGraph.requireKey name
    return (g.write? name).map .int
  | .rough g => g.write? name

/-! ## The whole draft -/

def toDocument : Draft → Json
  | .fair g => g.toDocument
  | .rough g => g.toDocument

/-- The drawing of a draft, with a title unless that is empty. -/
def drawing (d : Draft) (title : String) : Except Mishap String :=
  match d with
  | .fair g => .ok (g.drawing title)
  | .rough g => g.drawing title

/-- The size of a draft in words. -/
def describe : Draft → String
  | .fair g => g.describe
  | .rough g => Graph.sizeText g.nodes.length g.registers.length

/-! ## Analyses -/

/-- Validates a draft: the layout, in terms of the numbers of nodes, and the draft as it is
afterwards. -/
def validating (m : Machine) : Draft → Draft × Except Failure RoughLayout
  | .fair g =>
    let (g, outcome) := g.validating m
    (.fair g, outcome.map fun _ ↦ RoughGraph.ofLayout g g.kept)
  | .rough g => (.rough (g.validated m), g.layout m)

def isValidated : Draft → Bool
  | .fair g => g.isValidated
  | .rough g => g.layout?.isSome

/-- Infers what the nodes can be: intervals for integers all through, and otherwise extents. Extents
are listed by the numbers of nodes. -/
def infer (m : Machine) (d : Draft) (k : Knobs) :
    Except Failure (Inference ⊕ InferenceOf Json Extent) :=
  match d, k.tuning? with
  | .fair g, some t => ((g.inferred m t).mapError (·.failure)).map .inl
  | d, _ => (d.toRough.infer m k).map .inr

def checkThreshold (threshold : Json) : Except Failure Unit := do
  if ← (threshold.compare .less (.int 0)).mapError Failure.mishap then
    throw (.misconfigured (.negativeThreshold threshold))

/-- Measures depths: as integers for integers all through, and otherwise as loads. Loads are listed
by the numbers of nodes. -/
def measureDepth (m : Machine) (d : Draft) (w : RoughWeights) (threshold : Json)
    (severity : Severity) : Except Failure (DepthResult ⊕ DepthResultOf Load) := do
  checkThreshold threshold
  match d, w.table?, threshold with
  | .fair g, some table, .int t =>
    let known ← g.checked m
    ((known.measureDepth table t severity).mapError .ofDepth).map .inl
  | d, _, _ =>
    let limit := Load.amount (threshold.number?.getD (.int 0))
    (d.toRough.measureDepth m w.weight limit (· = .excessive) Load.toJson threshold severity).map
      .inr

/-- The analyses of a rough graph. Nothing is logged about it. -/
def roughAnalyses (m : Machine) (g : RoughGraph) : Assessment.Analyses Json Extent :=
  let known := g.validated m
  { validate := (g.layout m).map fun _ ↦ ()
    infer := fun t ↦
      (known.infer m ⟨.int t.maxIterations, .int t.wideningDelay, .int t.inputBits,
        .bool t.inputSigned⟩).mapError fun failure ↦ ⟨[], failure⟩
    entries := fun _ ↦ []
    measure := fun w threshold severity ↦ do
      checkThreshold (.int threshold)
      known.measureDepth m w.weight threshold (fun _ ↦ false) .int (.int threshold) severity }

def assess (m : Machine) (d : Draft) (c : Config) :
    Except Assessment.Interruption (Assessment ⊕ AssessmentOf Json Extent) :=
  match d with
  | .fair g => (g.assess m c).map .inl
  | .rough g => (Assessment.conduct (roughAnalyses m g) c).map .inr

end Draft

end Datapath
