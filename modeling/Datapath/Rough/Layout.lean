import Datapath.Extent
import Datapath.Graph.Layout
import Datapath.Json.Sorting
import Datapath.Rough.Graph
import Datapath.Rough.Pool

/-!
# Validation of rough graphs

The checks of a graph, with the order of document values in place of that of integers. A node or a
register whose parts have no order fails there. So do nodes on a cycle and registers tied into one
loop whose ids or names have none, because both are reported in order.
-/

namespace Datapath

/-- The smallest and the largest value that a register holds, if it has a width. -/
def RoughRegister.range (m : Machine) (r : RoughRegister) : Except Mishap (Option (Int × Int)) :=
  match r.width with
  | none => .ok none
  | some width => (Extent.bitRange m width r.signed).map some

namespace RoughGraph

/-- A check that may end in a mishap. -/
def tried {α : Type} (outcome : Except Mishap α) : Except Failure α := outcome.mapError .mishap

/-- The two ends of a declared range. -/
def twoEnds : List Json → Except Mishap (Json × Json)
  | lo :: hi :: _ => .ok (lo, hi)
  | _ => .error .pairTooShort

def checkNode (g : RoughGraph) (n : RoughNode) : Except Failure Unit := do
  n.operands.forM fun operand ↦ do
    if (← tried (g.node? operand)).isNone then refuse (.unknownOperand n.id n.kind operand)
  if !n.kind.accepts n.operands.length then
    refuse (.wrongArity n.id n.kind n.operands.length)
  if n.kind = .const && n.value.isNone then refuse (.noValue n.id)
  if n.kind.isRegister then
    let known ← match n.register with
      | none => pure none
      | some name => tried (g.register? name)
    if known.isNone then refuse (.undeclaredRegister n.id n.kind n.register)
  if let some bounds := n.bounds then
    let (lo, hi) ← tried (twoEnds bounds)
    if ← tried (lo.compare .greater hi) then refuse (.emptyBounds n.id bounds)

def checkRegister (m : Machine) (g : RoughGraph) (r : RoughRegister) : Except Failure Unit := do
  let writers ← tried (g.listed .regWrite r.name)
  if 1 < writers.length then refuse (.severalWriters r.name.plain writers)
  if let some width := r.width then
    if ← tried (width.compare .less (.int 1)) then refuse (.badWidth r.name.plain width)
    let (lo, hi) ← tried (Extent.bitRange m width r.signed)
    unless ← tried (Extent.contains ⟨.int lo, .int hi⟩ r.init) do
      refuse (.badInit r.name.plain r.init width)

/-! ## The order of operations -/

/-- The components of a relation between nodes that are reached from some nodes. The search closes a
component at the node that it entered first, which it must be able to tell from others: one whose id
is not equal to itself is never found. -/
def components (g : RoughGraph) (successors : Int → List Int) (numbers : List Int) :
    Except Mishap (List (List Int)) := do
  let found := Digraph.components g.nodes.length successors numbers
  let isLost (component : List Int) : Bool := component.getLast?.any fun number ↦
    !(g.idOf number).sameName (g.idOf number)
  if found.any isLost then throw .endlessComponent
  return found

/-- The node with the least id. -/
def least (g : RoughGraph) (numbers : List Int) : Except Mishap Int := do
  return (← Json.sortBy g.idOf numbers).head?.getD 0

/-- The fault shown by nodes that never become ready. -/
def cycleFault (g : RoughGraph) (stuck : List Int) : Except Mishap (MalformedOf Json) := do
  let s := g.skeleton
  let sorted ← Json.sortBy g.idOf stuck
  match (← g.components s.operands sorted).find? s.isCyclic with
  | none => return .notAcyclic (sorted.map g.idOf)
  | some component =>
    let start ← g.least component
    let inside := fun number ↦ (s.operands number).filter (component.contains ·)
    let chain := (Digraph.shortestCycle (component.length + 1) inside start).getD [start]
    return .combinationalCycle (chain.map fun number ↦ (g.idOf number, s.kindOf number))

/-- The numbers of the nodes with every operand before its consumers. -/
def operandOrder (g : RoughGraph) : Except Failure (List Int) := do
  let s := g.skeleton
  let counted := s.counted
  if counted.order.length = g.nodes.length then return counted.order
  refuse (← tried (g.cycleFault counted.waiting))

/-! ## Feedback -/

/-- The registers that are written in a component and read in it, as their writes name them, with
those writes. They come by name, which is why the names must have an order. -/
def closingRegisters (g : RoughGraph) (component : List Int) :
    Except Mishap (List (Json × Int)) :=
  let spread (number : Int) : Int := ((g.idOf number).number?.map Number.spread).getD 0
  Json.sortBy (·.1) ((Pool.order spread component).filterMap fun number ↦
    (g.nodeAt? number).bind fun n ↦
      if n.kind = .regWrite then
        n.register.bind fun name ↦
          if (g.listedNumbers .regRead name).any (component.contains ·) then some (name, number)
          else none
      else none)

/-- The feedback loop of a component; a component of one node has none. -/
def feedbackLoop (g : RoughGraph) (order component : List Int) :
    Except Failure (Option RoughLoop) := do
  if component.length = 1 then return none
  match ← tried (g.closingRegisters component) with
  | [] =>
    let inside := fun number ↦ (g.skeleton.dependencies number).filter (component.contains ·)
    let start ← tried (g.least component)
    let chain := (Digraph.shortestCycle (component.length + 1) inside start).getD [start]
    refuse (.notClosed (chain.map g.idOf))
  | [(register, write)] =>
    return some
      { register
        nodes := order.filter (component.contains ·)
        reads := (g.listedNumbers .regRead register).filter (component.contains ·)
        write }
  | first :: second :: rest =>
    let names ← tried (Json.joinable ((first :: second :: rest).map (·.1)))
    let chain := g.skeleton.tangle component (g.registerText first.1, first.2)
      (g.registerText second.1, second.2)
    refuse (.tangled names (chain.map g.idOf))

/-! ## The layout -/

/-- The layout of a rough graph whose nodes and registers make sense by themselves. -/
def arrange (g : RoughGraph) : Except Failure RoughLayout := do
  let s := g.skeleton
  let order ← g.operandOrder
  let components ← tried (g.components s.dependencies s.ids)
  let loops ← components.mapM (g.feedbackLoop order)
  return { order, components, loops := loops.filterMap id }

/-- The layout of a rough graph: the one kept with it, or else a new one. -/
def layout (m : Machine) (g : RoughGraph) : Except Failure RoughLayout :=
  match g.layout? with
  | some layout => .ok layout
  | none => do
    g.nodes.forM g.checkNode
    g.registers.forM (g.checkRegister m)
    g.arrange

/-- Validates a rough graph and keeps its layout, if that succeeds. -/
def validated (m : Machine) (g : RoughGraph) : RoughGraph :=
  match g.layout m with
  | .ok layout => { g with layout? := some layout }
  | .error _ => g

end RoughGraph

end Datapath
