import Datapath.Graph.Node

/-!
# Malformed graphs

What can be wrong with a graph, listed by cause. Each cause has a wording and a chain of node ids
that shows it: the offending node, the writers of a register, or a walk that closes on itself.

The type of ids and values is a parameter, because what cannot be a graph may still have to be
talked about. In a graph both are integers.
-/

namespace Datapath

/-- Why something is no legal graph, or a step of building it is not, with ids and values of a
type. -/
inductive MalformedOf (α : Type) where
  | declaredTwice (register : String)
  /-- A node id is used twice. -/
  | duplicateId (id : α)
  /-- An operand is no node. -/
  | unknownOperand (id : α) (kind : Kind) (operand : α)
  /-- A node has the wrong number of operands. -/
  | wrongArity (id : α) (kind : Kind) (count : Nat)
  /-- A literal has no value. -/
  | noValue (id : α)
  /-- A node reads or writes a register that is not declared. -/
  | undeclaredRegister (id : α) (kind : Kind) (register : Option Json)
  /-- A declared range is empty. -/
  | emptyBounds (id : α) (bounds : List α)
  /-- A register has several writers. -/
  | severalWriters (register : String) (writers : List α)
  /-- A register has no bits. -/
  | badWidth (register : String) (width : α)
  /-- A register cannot hold its initial value. -/
  | badInit (register : String) (init width : α)
  /-- Operations depend on each other without a register between them. -/
  | combinationalCycle (chain : List (α × Kind))
  /-- Operations wait for each other, but no cycle is found among them. -/
  | notAcyclic (stuck : List α)
  /-- Several registers feed back into each other. -/
  | tangled (registers : List String) (chain : List α)
  /-- A feedback cycle passes through no register. -/
  | notClosed (chain : List α)

/-- Why a graph is not legal, or a step of building it is not. -/
abbrev Malformed := MalformedOf Int

namespace MalformedOf

variable {α : Type}

/-- The number of operands that a kind asks for, in words. -/
def expected (kind : Kind) : String :=
  if kind.maxOperands = some kind.minOperands then toString kind.minOperands
  else s!"at least {kind.minOperands}"

/-- The wording of a cause, given how ids and values are shown. -/
def message (shown : α → Json) : MalformedOf α → String
  | .declaredTwice register => s!"register '{register}' declared twice"
  | .duplicateId id => s!"duplicate node id n{(shown id).plain}"
  | .unknownOperand id kind operand =>
    s!"n{(shown id).plain} ({kind.name}) references unknown node n{(shown operand).plain}"
  | .wrongArity id kind count =>
    s!"n{(shown id).plain} ({kind.name}) has {count} operand(s), expected {expected kind}"
  | .noValue id => s!"constant n{(shown id).plain} has no literal value"
  | .undeclaredRegister id kind register =>
    s!"n{(shown id).plain} ({kind.name}) names undeclared register " ++
      (register.getD Json.null).display
  | .emptyBounds id bounds =>
    s!"n{(shown id).plain} declares empty bounds {(Json.arr (bounds.map shown)).display}"
  | .severalWriters register writers => s!"register '{register}' has {writers.length} writers"
  | .badWidth register width => s!"register '{register}' declares width {(shown width).plain}"
  | .badInit register init width =>
    s!"register '{register}' initial value {(shown init).plain} does not fit its declared width " ++
      (shown width).plain
  | .combinationalCycle chain =>
    "combinational cycle does not pass through a register: " ++
      " -> ".intercalate (chain.map (·.2.name))
  | .notAcyclic _ => "operand graph is not acyclic"
  | .tangled registers _ =>
    "registers " ++ ", ".intercalate registers ++ " are tied into one feedback component; each " ++
      "feedback cycle must pass through exactly one register pair"
  | .notClosed _ => "feedback cycle is not closed by a register"

/-- The node ids that show a cause. -/
def chain : MalformedOf α → List α
  | .declaredTwice _ => []
  | .duplicateId id => [id]
  | .unknownOperand id _ _ => [id]
  | .wrongArity id _ _ => [id]
  | .noValue id => [id]
  | .undeclaredRegister id _ _ => [id]
  | .emptyBounds id _ => [id]
  | .severalWriters _ writers => writers
  | .badWidth _ _ => []
  | .badInit _ _ _ => []
  | .combinationalCycle chain => chain.map (·.1)
  | .notAcyclic stuck => stuck
  | .tangled _ chain => chain
  | .notClosed chain => chain

/-- The ids and values that a cause shows in its wording or its chain. -/
def values (shown : α → Json) : MalformedOf α → List Json
  | .declaredTwice _ => []
  | .duplicateId id => [shown id]
  | .unknownOperand id _ operand => [shown id, shown operand]
  | .wrongArity id _ _ => [shown id]
  | .noValue id => [shown id]
  | .undeclaredRegister id _ register => shown id :: register.toList
  | .emptyBounds id bounds => shown id :: bounds.map shown
  | .severalWriters _ writers => writers.map shown
  | .badWidth _ width => [shown width]
  | .badInit _ init width => [shown init, shown width]
  | .combinationalCycle chain => chain.map (shown ·.1)
  | .notAcyclic stuck => stuck.map shown
  | .tangled _ chain => chain.map shown
  | .notClosed chain => chain.map shown

end MalformedOf

end Datapath
