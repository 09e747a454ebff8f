import Datapath.Failure
import Datapath.Graph.Dot
import Datapath.Graph.Layout
import Datapath.Json.Arithmetic

/-!
# Rough graphs

A rough graph is built by the same steps as a graph, but its ids, operands, values, names and ranges
may be document values of any kind. Numbers of equal value are the same id, as are equal texts. What
cannot be an id at all is noticed when something is looked up by it.

## Steps that fail half-way

A step that fails after its node has been put in place leaves the node behind: not linked to all of
its operands, perhaps, or not listed under its register. What validation found out before is then
kept, though it knows nothing of the node.

## Numbers of nodes

The *number* of a node is its place in the list of nodes. It stands for the id in everything that
works on integers, and it stays the same when further nodes are added. An id that is not even equal
to itself can be looked up by nobody, but its node has a number like any other.
-/

namespace Datapath

/-- What a node is to be, as it was given. -/
structure RoughOperation where
  kind : Kind
  /-- The ids of the operands. -/
  operands : Json
  /-- The value of a literal. -/
  value : Option Json
  /-- The register that is read or written. -/
  register : Option Json
  /-- The declared range. -/
  bounds : Option Json
  name : Option Json
  /-- The place that the node came from. -/
  place : Option Place

/-- A node of a rough graph. -/
structure RoughNode where
  id : Json
  kind : Kind
  /-- The ids of the operands, in order. -/
  operands : List Json
  /-- The value of a literal. -/
  value : Option Json
  /-- The register that is read or written. -/
  register : Option Json
  bounds : Option (List Json)
  name : Option Json
  /-- The place that the node came from. -/
  place : Option Place
  /-- How many of the operands the node is linked to. -/
  linked : Nat
  /-- Whether the node is listed under its register. -/
  listed : Bool

def RoughNode.label (n : RoughNode) : String := labelText n.kind n.value n.register n.name

/-- A register as it was given. -/
structure RoughRegister where
  name : Json
  /-- The value before the first clock tick. -/
  init : Json
  /-- The number of bits. -/
  width : Option Json
  /-- Whether the values are in two's complement. -/
  signed : Json

/-- A feedback loop, in terms of the numbers of nodes. -/
structure RoughLoop where
  /-- The register, as its write names it. -/
  register : Json
  /-- The nodes of the loop, every operand before its consumers. -/
  nodes : List Int
  /-- The reads of the register in the loop. -/
  reads : List Int
  /-- The write of the register. -/
  write : Int

/-- What validation finds out about a rough graph, in terms of the numbers of nodes. -/
structure RoughLayout where
  /-- The nodes, every operand before its consumers. -/
  order : List Int
  /-- The strongly connected components of the dependencies, each after those it depends on. -/
  components : List (List Int)
  /-- One loop for each register that feeds back into itself. -/
  loops : List RoughLoop

/-- A graph with parts of any kind. -/
structure RoughGraph where
  /-- The nodes, in the order in which they were added. -/
  nodes : List RoughNode
  /-- The registers, in the order in which they were declared. -/
  registers : List RoughRegister
  /-- The id of the next node that is given none. -/
  nextId : Json
  /-- What validation found out. -/
  layout? : Option RoughLayout

/-- The integer of a value that is one, whatever its kind. -/
def Json.integral? (value : Json) : Option Int :=
  match value.number? with
  | some (.int n) => some n
  | some (.real x) => x.toRat?.bind fun q ↦ if q.den = 1 then some q.num else none
  | none => none

namespace RoughNode

def ofNode (n : Node) : RoughNode where
  id := .int n.id
  kind := n.kind
  operands := n.operands.map .int
  value := n.value.map .int
  register := n.register
  bounds := n.bounds.map fun (lo, hi) ↦ [.int lo, .int hi]
  name := n.name
  place := n.span.map Span.place
  linked := n.operands.length
  listed := true

/-- The operands that a node is linked to. -/
def links (n : RoughNode) : List Json := n.operands.take n.linked

/-- Whether a node is listed as one of a kind under a register. -/
def isListed (n : RoughNode) (kind : Kind) (register : Json) : Bool :=
  n.listed && n.kind = kind && n.register.any (·.sameName register)

def encode (n : RoughNode) : Json :=
  Graph.nodeDocument n.id n.kind n.operands n.value n.register n.bounds n.name n.place

end RoughNode

namespace RoughRegister

/-- A register as it was given. -/
def ofRegister (r : Register) : RoughRegister :=
  ⟨.str r.name, .int r.init, r.width.map .int, .bool r.signed⟩

/-- The register that this is, if its parts are of the right kinds. -/
def register? (r : RoughRegister) : Option Register :=
  match r.name, r.init, r.width, r.signed with
  | .str name, .int init, none, .bool signed => some ⟨name, init, none, signed⟩
  | .str name, .int init, some (.int width), .bool signed =>
    some ⟨name, init, some width, signed⟩
  | _, _, _, _ => none

def encode (r : RoughRegister) : Json := Graph.registerDocument r.name r.init r.width r.signed

end RoughRegister

namespace RoughOperation

/-- An operation with nothing but a kind, operands and a place. -/
def plain (kind : Kind) (operands : List Json) (place : Option Place) : RoughOperation :=
  ⟨kind, .arr operands, none, none, none, none, place⟩

/-- A declared range, if both ends are given. -/
def bothBounds (lo hi : Option Json) : Option Json :=
  lo.bind fun lo ↦ hi.map fun hi ↦ .arr [lo, hi]

/-- A name that is given, or else the usual one. Null is given to have none. -/
def named (usual : Json) : Option Json → Option Json
  | none => some usual
  | some .null => none
  | some name => some name

/-- An input, with a declared range if both ends are given. -/
def input (name lo hi : Option Json) (place : Option Place) : RoughOperation :=
  { plain .input [] place with name, bounds := bothBounds lo hi }

/-- A comparison, named by its operator. -/
def compare (a b : Json) (operator : Option Json) (place : Option Place) : RoughOperation :=
  { plain .compare [a, b] place with name := named Operation.usualOperator operator }

/-- A field of a record, with a declared range if both ends are given. -/
def fieldGet (record : Json) (name lo hi : Option Json) : RoughOperation :=
  { plain .fieldGet [record] none with name, bounds := bothBounds lo hi }

def output (value : Json) (name : Option Json) (place : Option Place) : RoughOperation :=
  { plain .output [value] place with name := named Operation.usualOutput name }

/-- The span that a place is, if its parts are of the right kinds. -/
def span? (place : Place) : Option Span :=
  match place.file, place.line, place.column with
  | .str file, .int line, .int column => some ⟨file, line, column⟩
  | _, _, _ => none

/-- A value that need not be there, but must be right if it is. -/
def optional? {α : Type} (read : Json → Option α) : Option Json → Option (Option α)
  | none => some none
  | some value => (read value).map some

/-- The operation that this is, if its parts are of the right kinds. -/
def operation? (o : RoughOperation) : Option Operation := do
  let operands ← match o.operands with
    | .arr items => Json.integers? items
    | _ => none
  let value ← optional? (fun | .int n => some n | _ => none) o.value
  let bounds ← optional? (fun | .arr [.int lo, .int hi] => some (lo, hi) | _ => none) o.bounds
  let span ← match o.place with
    | none => some none
    | some place => (span? place).map some
  if o.kind.isRegister && !o.register.all Json.isKey then none
  else some ⟨o.kind, operands, value, o.register, bounds, o.name, span⟩

end RoughOperation

namespace RoughGraph

/-- A layout of a graph as one of a rough graph. -/
def ofLayout (g : Graph) (layout : Layout) : RoughLayout :=
  let number (id : Int) : Int := g.ids.idxOf id
  { order := layout.order.map number
    components := layout.components.map (·.map number)
    loops := layout.loops.map fun loop ↦
      ⟨.str loop.register, loop.nodes.map number, loop.reads.map number, number loop.write⟩ }

def ofGraph (g : Graph) : RoughGraph :=
  ⟨g.nodes.map .ofNode, g.registers.map .ofRegister, .int g.nextId, g.layout?.map (ofLayout g)⟩

/-! ## Views -/

/-- Refuses a value that cannot be looked up by. -/
def requireKey (value : Json) : Except Mishap Unit :=
  if value.isKey then .ok () else .error (.unhashable value.kindName)

def node? (g : RoughGraph) (id : Json) : Except Mishap (Option RoughNode) := do
  requireKey id
  return g.nodes.find? (·.id.sameName id)

/-- The node with an id, which must be there. -/
def node (g : RoughGraph) (id : Json) : Except Mishap RoughNode := do
  match ← g.node? id with
  | some n => return n
  | none => throw (.noSuchKey id)

def register? (g : RoughGraph) (name : Json) : Except Mishap (Option RoughRegister) := do
  requireKey name
  return g.registers.find? (·.name.sameName name)

/-- The nodes that are linked to a node as an operand, once for each use. -/
def consumers (g : RoughGraph) (id : Json) : Except Mishap (List Json) := do
  requireKey id
  return g.nodes.flatMap fun n ↦ (n.links.filter (·.sameName id)).map fun _ ↦ n.id

/-- The nodes of a kind that are listed under a register. -/
def listed (g : RoughGraph) (kind : Kind) (register : Json) : Except Mishap (List Json) := do
  requireKey register
  return (g.nodes.filter (·.isListed kind register)).map (·.id)

def reads (g : RoughGraph) (register : Json) : Except Mishap (List Json) :=
  g.listed .regRead register

def write? (g : RoughGraph) (register : Json) : Except Mishap (Option Json) := do
  return (← g.listed .regWrite register).head?

/-- The consumers of every read of a register. -/
def readConsumers (g : RoughGraph) (register : Json) : Except Mishap (List Json) := do
  return (← (← g.reads register).mapM g.consumers).flatten

/-- The nodes at which paths of operations end. -/
def terminals (g : RoughGraph) : List Json := (g.nodes.filter (·.kind.isTerminal)).map (·.id)

/-- What a node depends on: its operands and, for a register read, the write of the register. -/
def dependencies (g : RoughGraph) (id : Json) : Except Mishap (List Json) := do
  let n ← g.node id
  let operands ← n.operands.filterM fun operand ↦ do return (← g.node? operand).isSome
  match n.kind, n.register with
  | .regRead, some register => return operands ++ (← g.write? register).toList
  | _, _ => return operands

/-- A rough graph as a document. -/
def toDocument (g : RoughGraph) : Json :=
  Graph.document (g.registers.map RoughRegister.encode) (g.nodes.map RoughNode.encode)

/-- The drawing of a rough graph, with a title unless that is empty. -/
def drawing (g : RoughGraph) (title : String) : Except Mishap String := do
  let links ← g.registers.mapM fun r ↦ do
    let write ← g.write? r.name
    let reads ← g.reads r.name
    return Graph.linkLines (write.map Json.plain) (reads.map Json.plain)
  return Graph.drawingOf title <|
    (g.nodes.map fun n ↦ Graph.nodeLine n.id.plain n.label n.kind) ++
      (g.nodes.flatMap fun n ↦ Graph.edgeLines n.id.plain n.kind (n.operands.map Json.plain)) ++
      links.flatten

/-! ## Building -/

/-- The failure of a step that is not legal. -/
def refuse {β : Type} (cause : MalformedOf Json) : Except Failure β :=
  .error (.rough (.malformed cause))

def declare (g : RoughGraph) (r : RoughRegister) : Except Failure RoughGraph := do
  match ← (g.register? r.name).mapError .mishap with
  | some _ => refuse (.declaredTwice r.name.plain)
  | none => return { g with registers := g.registers ++ [r], layout? := none }

/-- The node that an operation becomes, before anything is linked to it. -/
def prepare (g : RoughGraph) (o : RoughOperation) (id : Json) : Except Failure RoughNode := do
  if (← (g.node? id).mapError .mishap).isSome then refuse (.duplicateId id)
  let operands ← o.operands.toItems.mapError .mishap
  let bounds ← match o.bounds with
    | none => pure none
    | some bounds => do pure (some (← bounds.toItems.mapError .mishap))
  return {
    id, operands, bounds
    kind := o.kind
    value := o.value
    register := o.register
    name := o.name
    place := o.place
    linked := (operands.takeWhile Json.isKey).length
    listed := operands.all Json.isKey && o.register.all Json.isKey }

/-- Links a node to its operands and its register, and finds the id after it. -/
def link (g : RoughGraph) (n : RoughNode) : Except Mishap Json := do
  n.operands.forM requireKey
  if n.kind.isRegister then n.register.forM requireKey
  g.nextId.greater (← n.id.add (.int 1))

/-- Adds an operation as a node with the given id, or else with a fresh one. A node that cannot be
linked is there nevertheless. -/
def add (g : RoughGraph) (o : RoughOperation) (id? : Option Json) :
    RoughGraph × Except Failure Json :=
  match g.prepare o (id?.getD g.nextId) with
  | .error failure => (g, .error failure)
  | .ok n =>
    let grown := { g with nodes := g.nodes ++ [n] }
    match g.link n with
    | .error cause => (grown, .error (.mishap cause))
    | .ok nextId => ({ grown with nextId, layout? := none }, .ok n.id)

/-! ## Numbers -/

/-- The nodes with their numbers. -/
def numbered (g : RoughGraph) : List (RoughNode × Int) :=
  g.nodes.zipIdx.map fun (n, index) ↦ (n, (index : Int))

def nodeAt? (g : RoughGraph) (number : Int) : Option RoughNode := g.nodes[number.toNat]?

def idOf (g : RoughGraph) (number : Int) : Json :=
  ((g.nodeAt? number).map (·.id)).getD (.int number)

def numberOf? (g : RoughGraph) (id : Json) : Option Int :=
  (g.nodes.findIdx? (·.id.sameName id)).map fun index ↦ (index : Int)

/-- The numbers of the nodes of a kind that are listed under a register. -/
def listedNumbers (g : RoughGraph) (kind : Kind) (register : Json) : List Int :=
  (g.numbered.filter fun (n, _) ↦ n.isListed kind register).map (·.2)

/-- The place of the node with a number. -/
def placeOf (g : RoughGraph) (number : Int) : Option Place := (g.nodeAt? number).bind (·.place)

/-- A text that stands for the register with a name: its place in the list of registers. -/
def registerText (g : RoughGraph) (name : Json) : String :=
  toString (g.registers.findIdx (·.name.sameName name))

/-- The links of a rough graph as a graph: numbers in place of ids, and no values. -/
def skeleton (g : RoughGraph) : Graph :=
  .ofParts
    (g.numbered.map fun (n, number) ↦
      { Operation.plain n.kind (n.links.filterMap g.numberOf?) with
        id := number
        register := if n.listed then n.register.map fun r ↦ .str (g.registerText r) else none })
    (g.registers.mapIdx fun index _ ↦ ⟨toString index, 0, none, false⟩)

end RoughGraph

end Datapath
