import Datapath.Graph.Basic

/-!
# Drawings

A graph as text for a drawing program: one line for each node, one for each operand edge, and a
dashed edge from the write of each register to its reads.
-/

namespace Datapath.Graph

/-- The look of a node, by kind. -/
def look : Kind → String
  | .const => "shape=plaintext"
  | .input => "style=filled, fillcolor=\"#ccffcc\", shape=invhouse"
  | .output => "style=filled, fillcolor=\"#ccffcc\", shape=house"
  | .regRead | .regWrite => "style=filled, fillcolor=\"#ddeeff\""
  | .mux => "shape=trapezium"
  | _ => ""

/-- A text with a backslash before each double quote. -/
def escapeQuotes (s : String) : String :=
  String.ofList (s.toList.flatMap fun c ↦ if c = '"' then ['\\', '"'] else [c])

def nodeLine (id label : String) (kind : Kind) : String :=
  let attributes := look kind
  let separator := if attributes.isEmpty then "" else ", "
  s!"  n{id} [label=\"{escapeQuotes label}\"{separator}{attributes}];"

/-- The lines of the operand edges of a node. The edge to the selector of a choice is marked. -/
def edgeLines (id : String) (kind : Kind) (operands : List String) : List String :=
  operands.mapIdx fun position operand ↦
    let mark := if kind = .mux && position == 0 then " [label=\"sel\"]" else ""
    s!"  n{operand} -> n{id}{mark};"

/-- The lines of the edges from the write of a register to its reads. -/
def linkLines (write : Option String) (reads : List String) : List String :=
  match write with
  | none => []
  | some write => reads.map fun read ↦ s!"  n{write} -> n{read} [style=dashed, color=blue];"

/-- A drawing from its lines, with a title unless that is empty. -/
def drawingOf (title : String) (lines : List String) : String :=
  "\n".intercalate <|
    ["digraph Dataflow \x7b", "  rankdir=LR;"] ++
      (if title.isEmpty then [] else [s!"  label=\"{title}\";"]) ++
      ["  node [shape=box, fontname=\"Helvetica\", fontsize=10];"] ++
      lines ++
      ["\x7d"]

/-- The drawing of a graph, with a title unless that is empty. -/
def drawing (g : Graph) (title : String) : String :=
  drawingOf title <|
    (g.nodes.map fun n ↦ nodeLine (toString n.id) n.label n.kind) ++
      (g.nodes.flatMap fun n ↦ edgeLines (toString n.id) n.kind (n.operands.map toString)) ++
      (g.registers.flatMap fun r ↦
        linkLines ((g.write? (.str r.name)).map toString) ((g.reads (.str r.name)).map toString))

/-- The numbers of nodes and registers in words. -/
def sizeText (nodes registers : Nat) : String :=
  s!"DataflowGraph(nodes={nodes}, registers={registers})"

/-- The size of a graph in words. -/
def describe (g : Graph) : String := sizeText g.nodes.length g.registers.length

end Datapath.Graph
