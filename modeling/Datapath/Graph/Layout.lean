import Datapath.Digraph.Component
import Datapath.Digraph.Path
import Datapath.Graph.Basic

/-!
# Validation

A graph is legal when every node makes sense by itself, every register makes sense by itself, no
operation depends on its own result within a clock cycle, and every feedback loop passes through
one register. Validation checks these in that order and reports the first fault; a legal graph keeps
the layout that the analyses work from.

## The order of operations

Nodes are put in order as they become ready: first those without operands, then each node when the
last of its operands has been placed. For each node the uses of operands that are not yet placed are
counted, and placing a node counts down for its consumers. Nodes that never become ready lie on a
cycle or depend on one, and a shortest cycle among them is reported.

## Feedback

A register read depends on the write of its register. A strongly connected component of these
dependencies with more than one node is a feedback loop; it must be closed by exactly one register.
-/

namespace Datapath.Graph

/-! ## Nodes and registers by themselves -/

/-- The first fault of a node by itself. -/
def nodeFault (g : Graph) (n : Node) : Option Malformed :=
  match n.operands.find? (!g.contains ·) with
  | some operand => some (.unknownOperand n.id n.kind operand)
  | none =>
    if !n.kind.accepts n.operands.length then some (.wrongArity n.id n.kind n.operands.length)
    else if n.kind = .const && n.value.isNone then some (.noValue n.id)
    else if n.kind.isRegister && (n.registerName?.bind g.register?).isNone then
      some (.undeclaredRegister n.id n.kind n.register)
    else
      match n.bounds with
      | some (lo, hi) => if hi < lo then some (.emptyBounds n.id [lo, hi]) else none
      | none => none

/-- The first fault of a register by itself. -/
def registerFault (g : Graph) (r : Register) : Option Malformed :=
  let writers := g.writes (.str r.name)
  if 1 < writers.length then some (.severalWriters r.name writers)
  else
    match r.width with
    | none => none
    | some width =>
      if width < 1 then some (.badWidth r.name width)
      else
        match bitRange width r.signed with
        | .ok (lo, hi) =>
          if lo ≤ r.init && r.init ≤ hi then none else some (.badInit r.name r.init width)
        | .error _ => some (.badWidth r.name width)

/-! ## The order of operations -/

/-- The state in which nodes are put in order. -/
structure Countdown where
  /-- For each node, how many uses of operands are still to be placed. -/
  pending : List (Int × Int)
  /-- The nodes that are ready and wait to be placed. -/
  ready : List Int
  /-- The nodes placed, in reverse. -/
  placed : List Int

namespace Countdown

/-- Counts down by one for a consumer of a node that has been placed. The consumer is ready when
nothing is left to count. -/
def release (c : Countdown) (consumer : Int) : Countdown :=
  let pending := c.pending.map fun (id, count) ↦ (id, if id = consumer then count - 1 else count)
  if pending.lookup consumer = some 0 then { c with pending, ready := c.ready ++ [consumer] }
  else { c with pending }

/-- Places the nodes that are ready, and those that become ready by it. -/
def run (consumers : Int → List Int) : Nat → Countdown → Countdown
  | 0, c => c
  | fuel + 1, c =>
    match c.ready with
    | [] => c
    | id :: ready =>
      run consumers fuel ((consumers id).foldl release { c with ready, placed := id :: c.placed })

/-- The nodes in the order in which they were placed. -/
def order (c : Countdown) : List Int := c.placed.reverse

/-- The nodes that still wait for an operand. -/
def waiting (c : Countdown) : List Int := (c.pending.filter (0 < ·.2)).map (·.1)

end Countdown

/-- The state before any node is placed: those without operands are ready. -/
def countdown (g : Graph) : Countdown :=
  let pending := g.nodes.map fun n ↦ (n.id, (n.operands.length : Int))
  ⟨pending, (pending.filter (·.2 = 0)).map (·.1), []⟩

/-- The state when no node is ready any more. -/
def counted (g : Graph) : Countdown := g.countdown.run g.consumers g.nodes.length

/-- Whether a component of the operand relation holds a cycle. -/
def isCyclic (g : Graph) (component : List Int) : Bool :=
  decide (1 < component.length) || component.any fun id ↦ (g.operands id).contains id

def kindOf (g : Graph) (id : Int) : Kind := ((g.node? id).map (·.kind)).getD default

def least (ids : List Int) : Int := ids.tail.foldl min (ids.head?.getD 0)

/-- The fault shown by nodes that never become ready: a shortest cycle through the least node of
the first cyclic component. -/
def cycleFault (g : Graph) (stuck : List Int) : Malformed :=
  let sorted := stuck.mergeSort (· ≤ ·)
  match (Digraph.components g.nodes.length g.operands sorted).find? g.isCyclic with
  | none => .notAcyclic sorted
  | some component =>
    let start := least component
    let inside := fun id ↦ (g.operands id).filter (component.contains ·)
    let chain := (Digraph.shortestCycle (component.length + 1) inside start).getD [start]
    .combinationalCycle (chain.map fun id ↦ (id, g.kindOf id))

/-- The node ids with every operand before its consumers. -/
def operandOrder (g : Graph) : Except Malformed (List Int) :=
  let counted := g.counted
  if counted.order.length = g.nodes.length then .ok counted.order
  else .error (g.cycleFault counted.waiting)

/-! ## Feedback -/

/-- The registers that are written in a component and read in it, with their writes, by name. -/
def closingRegisters (g : Graph) (component : List Int) : List (String × Int) :=
  (component.filterMap fun id ↦
    (g.node? id).bind fun n ↦
      if n.kind = .regWrite then
        n.registerName?.bind fun name ↦
          if (g.reads (.str name)).any (component.contains ·) then some (name, id) else none
      else none).mergeSort fun a b ↦ decide (a.1 ≤ b.1)

/-- A walk along the flow of values from a read of one register to the write of another, inside a
component. -/
def walk (g : Graph) (component : List Int) (source target : Int) : List Int :=
  let inside := fun id ↦ (g.flow id).filter (component.contains ·)
  (Digraph.shortestPath (component.length + 1) inside source target).getD []

/-- A closed walk through two registers of a component. -/
def tangle (g : Graph) (component : List Int) (first second : String × Int) : List Int :=
  let readOf := fun (name : String) ↦
    ((g.reads (.str name)).find? (component.contains ·)).getD 0
  g.walk component (readOf first.1) second.2 ++ g.walk component (readOf second.1) first.2 ++
    [readOf first.1]

/-- The feedback loop of a component; a component of one node has none. -/
def feedbackLoop (g : Graph) (order component : List Int) :
    Except Malformed (Option FeedbackLoop) :=
  if component.length = 1 then .ok none
  else
    match g.closingRegisters component with
    | [] =>
      let inside := fun id ↦ (g.dependencies id).filter (component.contains ·)
      let start := least component
      .error (.notClosed
        ((Digraph.shortestCycle (component.length + 1) inside start).getD [start]))
    | [(register, write)] =>
      .ok (some
        { register
          nodes := order.filter (component.contains ·)
          reads := (g.reads (.str register)).filter (component.contains ·)
          write })
    | first :: second :: rest =>
      .error (.tangled ((first :: second :: rest).map (·.1)) (g.tangle component first second))

/-! ## The layout -/

/-- The components of the dependencies, each after those it depends on. -/
def dependencyComponents (g : Graph) : List (List Int) :=
  Digraph.components g.nodes.length g.dependencies g.ids

/-- The feedback loops of some components, given an order of operations. -/
def feedbackLoops (g : Graph) (order : List Int) (components : List (List Int)) :
    Except Malformed (List FeedbackLoop) :=
  (components.mapM (g.feedbackLoop order)).map (·.filterMap id)

/-- The first fault of the nodes and the registers by themselves. -/
def partFault? (g : Graph) : Option Malformed :=
  match g.nodes.findSome? g.nodeFault with
  | some fault => some fault
  | none => g.registers.findSome? g.registerFault

/-- Validates a graph, unless it is marked as validated: what comes out, and the graph as it is
afterwards. The order and the components are kept as soon as they are known, although the loops may
turn out not to be legal. -/
def revalidate (g : Graph) : Graph × Except Malformed Unit :=
  if g.validated then (g, .ok ())
  else
    match g.partFault? with
    | some fault => (g, .error fault)
    | none =>
      match g.operandOrder with
      | .error fault => (g, .error fault)
      | .ok order =>
        let ordered := { g with order }
        let g := { ordered with components := ordered.dependencyComponents }
        match g.feedbackLoops g.order g.components with
        | .error fault => (g, .error fault)
        | .ok loops => ({ g with loops, validated := true }, .ok ())

def validate (g : Graph) : Except Malformed Graph :=
  let (g, outcome) := g.revalidate
  outcome.map fun _ ↦ g

def layout (g : Graph) : Except Malformed Layout := g.validate.map kept

/-- Whether the layout is known. -/
def isValidated (g : Graph) : Bool := g.validated

end Datapath.Graph
