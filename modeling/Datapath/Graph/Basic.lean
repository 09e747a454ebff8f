import Datapath.Graph.Index

/-!
# Graphs

A graph is built by declaring registers and adding nodes, in any order: operands may name nodes
that come later. Each node that is added is entered into the tables by which consumers, reads and
writes are found.

What validation finds out about a graph is kept with it, part by part as it is found. It counts only
as long as the graph is marked as validated, and every change takes the mark away. A validation that
fails may have replaced some of the parts by then.
-/

namespace Datapath

/-- A feedback loop: the operations between the reads of a register and its write. -/
structure FeedbackLoop where
  register : String
  /-- The nodes of the loop, every operand before its consumers. -/
  nodes : List Int
  /-- The reads of the register in the loop. -/
  reads : List Int
  /-- The write of the register. -/
  write : Int
deriving DecidableEq, Repr, Inhabited

/-- What validation finds out about a legal graph. -/
structure Layout where
  /-- The node ids, every operand before its consumers. -/
  order : List Int
  /-- The strongly connected components of the dependencies, each after those it depends on. -/
  components : List (List Int)
  /-- One loop for each register that feeds back into itself. -/
  loops : List FeedbackLoop
deriving DecidableEq, Repr, Inhabited

/-- A dataflow graph. -/
structure Graph where
  /-- The nodes, in the order in which they were added. -/
  nodes : List Node
  /-- The registers, in the order in which they were declared. -/
  registers : List Register
  /-- An id above those of all nodes. -/
  nextId : Int
  index : Index
  /-- Whether the graph has been validated since the last change. -/
  validated : Bool
  /-- The order of operations that validation found last. -/
  order : List Int
  /-- The components of the dependencies that validation found last. -/
  components : List (List Int)
  /-- The feedback loops that validation found last. -/
  loops : List FeedbackLoop

namespace Graph

/-- The first id above those of some nodes. -/
def freshId (nodes : List Node) : Int := nodes.foldl (fun fresh n ↦ max fresh (n.id + 1)) 0

/-- The graph with some nodes and registers, of whose layout nothing is known yet. -/
def ofParts (nodes : List Node) (registers : List Register) : Graph where
  nodes := nodes
  registers := registers
  nextId := freshId nodes
  index := .ofNodes nodes
  validated := false
  order := []
  components := []
  loops := []

@[simp] theorem nodes_ofParts (nodes : List Node) (registers : List Register) :
    (ofParts nodes registers).nodes = nodes := rfl

@[simp] theorem registers_ofParts (nodes : List Node) (registers : List Register) :
    (ofParts nodes registers).registers = registers := rfl

/-- The graph without nodes and registers. -/
def empty : Graph := ofParts [] []

instance : Inhabited Graph := ⟨empty⟩

/-! ## Views -/

def ids (g : Graph) : List Int := g.nodes.map (·.id)

def node? (g : Graph) (id : Int) : Option Node := g.nodes.find? (·.id = id)

def register? (g : Graph) (name : String) : Option Register := g.registers.find? (·.name = name)

/-- Whether an id belongs to a node. -/
def contains (g : Graph) (id : Int) : Bool := g.nodes.any (·.id = id)

/-- The nodes that use a node as an operand, once for each use. -/
def consumers (g : Graph) (id : Int) : List Int := Table.listed (· == ·) g.index.consumers id

def reads (g : Graph) (register : Json) : List Int :=
  Table.listed Json.sameName g.index.reads register

def writes (g : Graph) (register : Json) : List Int :=
  Table.listed Json.sameName g.index.writes register

/-- The first write of a register. -/
def write? (g : Graph) (register : Json) : Option Int := (g.writes register).head?

/-- The consumers of every read of a register. -/
def readConsumers (g : Graph) (register : Json) : List Int :=
  (g.reads register).flatMap g.consumers

/-- The nodes at which paths of operations end. -/
def terminals (g : Graph) : List Int := (g.nodes.filter (·.kind.isTerminal)).map (·.id)

/-- What a node depends on: its operands and, for a register read, the write of the register. -/
def nodeDependencies (g : Graph) (n : Node) : List Int :=
  n.operands.filter g.contains ++
    (if n.kind = .regRead then (n.register.bind g.write?).toList else [])

/-- What the node with an id depends on; nothing if there is no such node. -/
def dependencies (g : Graph) (id : Int) : List Int := ((g.node? id).map g.nodeDependencies).getD []

/-- The operands of the node with an id; none if there is no such node. -/
def operands (g : Graph) (id : Int) : List Int := ((g.node? id).map (·.operands)).getD []

/-- Where a node's value goes: to its consumers and, for a register write, to the reads of the
register. -/
def flow (g : Graph) (id : Int) : List Int :=
  g.consumers id ++
    match g.node? id with
    | some n => if n.kind = .regWrite then (n.register.map g.reads).getD [] else []
    | none => []

/-! ## What is known of the layout -/

/-- The layout as validation found it last, whether it counts or not. -/
def kept (g : Graph) : Layout := ⟨g.order, g.components, g.loops⟩

/-- What validation found out, if nothing has changed since. -/
def layout? (g : Graph) : Option Layout := if g.validated then some g.kept else none

/-- A graph as it is before anything is known of its layout. -/
def forget (g : Graph) : Graph :=
  { g with validated := false, order := [], components := [], loops := [] }

/-! ## Building -/

def declare (g : Graph) (register : Register) : Except Malformed Graph :=
  if (g.register? register.name).isSome then .error (.declaredTwice register.name)
  else .ok { g with registers := g.registers ++ [register], validated := false }

/-- Adds an operation as a node with the given id, or else with a fresh one. -/
def add (g : Graph) (operation : Operation) (id? : Option Int) : Except Malformed (Graph × Int) :=
  let id := id?.getD g.nextId
  if g.contains id then .error (.duplicateId id)
  else
    let node : Node := { operation with id }
    .ok ({ g with
      nodes := g.nodes ++ [node]
      nextId := max g.nextId (id + 1)
      index := g.index.enter node
      validated := false }, id)

/-- A declared range, if both ends are given. -/
def bothBounds (lo hi : Option Int) : Option (Int × Int) :=
  lo.bind fun lo ↦ hi.map fun hi ↦ (lo, hi)

end Graph

namespace Operation

/-- The operator of a comparison, unless another is given. -/
def usualOperator : Json := .str "<"

/-- The name of an output, unless another is given. -/
def usualOutput : Json := .str "out"

def const (value : Int) (span : Option Span) : Operation :=
  { plain .const [] with value := some value, span }

/-- An input, with a declared range if both ends are given. -/
def input (name : Option Json) (lo hi : Option Int) (span : Option Span) : Operation :=
  { plain .input [] with name, bounds := Graph.bothBounds lo hi, span }

def binary (kind : Kind) (a b : Int) (span : Option Span) : Operation :=
  { plain kind [a, b] with span }

/-- A comparison, named by its operator. -/
def compare (a b : Int) (operator : Json) (span : Option Span) : Operation :=
  { plain .compare [a, b] with name := some operator, span }

/-- A choice between branches. -/
def mux (select : Int) (branches : List Int) (span : Option Span) : Operation :=
  { plain .mux (select :: branches) with span }

/-- A use of a variable. -/
def varRef (target : Int) (name : Option Json) : Operation := { plain .varRef [target] with name }

/-- A definition of a variable. -/
def binding (value : Int) (name : Option Json) : Operation := { plain .binding [value] with name }

/-- A field of a record, with a declared range if both ends are given. -/
def fieldGet (record : Int) (name : Option Json) (lo hi : Option Int) : Operation :=
  { plain .fieldGet [record] with name, bounds := Graph.bothBounds lo hi }

def regRead (register : Json) (span : Option Span) : Operation :=
  { plain .regRead [] with register := some register, span }

def regWrite (register : Json) (value : Int) (span : Option Span) : Operation :=
  { plain .regWrite [value] with register := some register, span }

def output (value : Int) (name : Option Json) (span : Option Span) : Operation :=
  { plain .output [value] with name, span }

end Operation

end Datapath
