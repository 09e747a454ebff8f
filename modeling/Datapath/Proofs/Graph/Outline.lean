import Datapath.Graph.Layout

/-!
# What the layout of a graph depends on

Once the nodes and the registers make sense by themselves, validation asks about a node only which
kind it has, which operands it takes and which register it names. The rest of a graph can change
freely: graphs of one outline are arranged in the same way.

Every view is first taken to the outline, and equal outlines then have equal views.

Validation keeps the parts of a layout one by one. `arrange` puts them together in one piece, and
`computeLayout` is the layout of a graph of which nothing is known.
-/

namespace Datapath

/-- A node without what the layout does not ask for. -/
def Node.outline (n : Node) : Node :=
  { n with value := none, bounds := none, name := none, span := none }

namespace Graph

/-- The outlines of the nodes of a graph and their tables, and nothing else of it. -/
def outline (g : Graph) : Graph :=
  ⟨g.nodes.map Node.outline, [], 0, g.index, false, [], [], []⟩

/-- The layout of a graph whose nodes and registers make sense by themselves. -/
def arrange (g : Graph) : Except Malformed Layout := do
  let order ← g.operandOrder
  let loops ← g.feedbackLoops order g.dependencyComponents
  return { order, components := g.dependencyComponents, loops }

/-- The layout of a legal graph, or its first fault. -/
def computeLayout (g : Graph) : Except Malformed Layout :=
  match g.partFault? with
  | some fault => .error fault
  | none => g.arrange

theorem ofNodes_outline (nodes : List Node) :
    Index.ofNodes (nodes.map Node.outline) = Index.ofNodes nodes :=
  List.foldl_map

variable (g : Graph)

/-! ## Views -/

@[simp] theorem ids_outline : g.outline.ids = g.ids := by
  rw [ids, outline, List.map_map]
  rfl

@[simp] theorem node?_outline (id : Int) : g.outline.node? id = (g.node? id).map Node.outline := by
  rw [node?, outline, List.find?_map]
  rfl

@[simp] theorem contains_outline (id : Int) : g.outline.contains id = g.contains id := by
  rw [contains, outline, List.any_map]
  rfl

@[simp] theorem consumers_outline (id : Int) : g.outline.consumers id = g.consumers id := rfl

@[simp] theorem reads_outline (register : Json) : g.outline.reads register = g.reads register := rfl

@[simp] theorem writes_outline (register : Json) :
    g.outline.writes register = g.writes register := rfl

@[simp] theorem write?_outline (register : Json) :
    g.outline.write? register = g.write? register := rfl

@[simp] theorem nodeDependencies_outline (n : Node) :
    g.outline.nodeDependencies n.outline = g.nodeDependencies n := by
  have hcontains : g.outline.contains = g.contains := funext g.contains_outline
  have hwrite : g.outline.write? = g.write? := funext g.write?_outline
  rw [nodeDependencies, hcontains, hwrite]
  rfl

@[simp] theorem dependencies_outline (id : Int) :
    g.outline.dependencies id = g.dependencies id := by
  rw [dependencies, dependencies, node?_outline]
  cases g.node? id with
  | none => rfl
  | some n => exact g.nodeDependencies_outline n

@[simp] theorem operands_outline (id : Int) : g.outline.operands id = g.operands id := by
  rw [operands, operands, node?_outline]
  cases g.node? id <;> rfl

@[simp] theorem kindOf_outline (id : Int) : g.outline.kindOf id = g.kindOf id := by
  rw [kindOf, kindOf, node?_outline]
  cases g.node? id <;> rfl

@[simp] theorem flow_outline (id : Int) : g.outline.flow id = g.flow id := by
  have hreads : g.outline.reads = g.reads := funext g.reads_outline
  rw [flow, flow, node?_outline, consumers_outline, hreads]
  cases g.node? id <;> rfl

/-! ## The order of operations -/

@[simp] theorem length_outline : g.outline.nodes.length = g.nodes.length := List.length_map _

@[simp] theorem countdown_outline : g.outline.countdown = g.countdown := by
  rw [countdown, countdown, outline, List.map_map]
  rfl

@[simp] theorem counted_outline : g.outline.counted = g.counted := by
  rw [counted, counted, countdown_outline, length_outline]
  rfl

@[simp] theorem isCyclic_outline (component : List Int) :
    g.outline.isCyclic component = g.isCyclic component := by
  simp only [isCyclic, operands_outline]

@[simp] theorem cycleFault_outline (stuck : List Int) :
    g.outline.cycleFault stuck = g.cycleFault stuck := by
  have hoperands : g.outline.operands = g.operands := funext g.operands_outline
  have hcyclic : g.outline.isCyclic = g.isCyclic := funext g.isCyclic_outline
  have hkind : g.outline.kindOf = g.kindOf := funext g.kindOf_outline
  rw [cycleFault, cycleFault, length_outline, hoperands, hcyclic, hkind]

@[simp] theorem operandOrder_outline : g.outline.operandOrder = g.operandOrder := by
  rw [operandOrder, operandOrder, counted_outline, length_outline, cycleFault_outline]

/-! ## Feedback -/

@[simp] theorem closingRegisters_outline (component : List Int) :
    g.outline.closingRegisters component = g.closingRegisters component := by
  rw [closingRegisters, closingRegisters]
  congr 2
  funext id
  simp only [node?_outline, reads_outline, Option.bind_map]
  rfl

@[simp] theorem walk_outline (component : List Int) (source target : Int) :
    g.outline.walk component source target = g.walk component source target := by
  simp only [walk, flow_outline]

@[simp] theorem tangle_outline (component : List Int) (first second : String × Int) :
    g.outline.tangle component first second = g.tangle component first second := by
  simp only [tangle, reads_outline, walk_outline]

@[simp] theorem feedbackLoop_outline (order component : List Int) :
    g.outline.feedbackLoop order component = g.feedbackLoop order component := by
  simp only [feedbackLoop, closingRegisters_outline, dependencies_outline, reads_outline,
    tangle_outline]

@[simp] theorem dependencyComponents_outline :
    g.outline.dependencyComponents = g.dependencyComponents := by
  rw [dependencyComponents, dependencyComponents, length_outline, ids_outline,
    show g.outline.dependencies = g.dependencies from funext g.dependencies_outline]

@[simp] theorem feedbackLoops_outline (order : List Int) (components : List (List Int)) :
    g.outline.feedbackLoops order components = g.feedbackLoops order components := by
  rw [feedbackLoops, feedbackLoops,
    show g.outline.feedbackLoop order = g.feedbackLoop order from
      funext (g.feedbackLoop_outline order)]

theorem arrange_outline : g.outline.arrange = g.arrange := by
  simp only [arrange, operandOrder_outline, dependencyComponents_outline, feedbackLoops_outline]

variable {g} {g' : Graph}

theorem view_congr {α : Type} (view : Graph → α) (hview : ∀ g : Graph, view g.outline = view g)
    (h : g.outline = g'.outline) : view g = view g' := by
  rw [← hview g, h, hview g']

/-- **Graphs of one outline are arranged in the same way.** -/
theorem arrange_congr (h : g.outline = g'.outline) : g.arrange = g'.arrange :=
  view_congr arrange arrange_outline h

end Graph

end Datapath
