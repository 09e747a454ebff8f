import Datapath.Proofs.Digraph.Shortest
import Datapath.Proofs.Graph.Validation

/-!
# Combinational cycles

When validation reports a combinational cycle, the chain of nodes that it shows is a cycle of the
operand relation in the direction in which values flow: each node is an operand of the next. It is
a shortest cycle through the node at which it starts.

The search that finds it runs against that direction, from a node to its operands, and inside one
component of the operand relation. The component is no restriction: a cycle through one of its
nodes never leaves it.
-/

namespace Datapath.Graph

variable {g : Graph} {links : List (Int × Kind)}

/-- The faults of nodes, of registers and of feedback are no combinational cycles, so a reported
one comes from the order of operations. -/
theorem operandOrder_of_validate (hg : g.Coherent)
    (h : g.validate = .error (.combinationalCycle links)) :
    g.OperandsKnown ∧ g.operandOrder = .error (.combinationalCycle links) := by
  obtain ⟨hwell, harrange⟩ := arrange_of_validate hg h (fun n ↦ by grind [nodeFault])
    fun r ↦ by grind [registerFault]
  refine ⟨hwell.operandsKnown, ?_⟩
  rcases arrange_eq_error hg hwell harrange with horder | ⟨hacyclic, c, hc, hloop⟩
  · exact horder
  · obtain ⟨first, second, rest, -, hfault⟩ := tangled_of_feedbackLoop hg hwell hacyclic hc hloop
    cases hfault

/-- **A reported combinational cycle is a shortest cycle** of the operand relation through the node
at which it starts. Each entry is an operand of the next, and no node is visited twice on the
way. -/
theorem combinationalCycle_shortest (h : g.Built)
    (hvalidate : g.validate = .error (.combinationalCycle links)) :
    ∃ start chain, links = chain.map (fun id ↦ (id, g.kindOf id)) ∧
      Digraph.CycleThrough g.operands start chain ∧ chain.tail.Nodup ∧
      ∀ cycle, Digraph.CycleThrough g.operands start cycle → chain.length ≤ cycle.length := by
  obtain ⟨hknown, horder⟩ := operandOrder_of_validate h.coherent hvalidate
  obtain ⟨c, chain, ⟨vertices, components, hdecompose, hc⟩, hchain, hfault⟩ :=
    operandOrder_error h.coherent hknown horder
  injection hfault with hlinks
  have hstart : least c ∈ c := least_mem (hdecompose.ne_nil c hc)
  obtain ⟨hcycle, hnodup, hshortest⟩ := Digraph.shortestCycle_eq_some hchain
  refine ⟨least c, chain, hlinks,
    (Digraph.cycleThrough_inside_iff hdecompose hc hstart).mp hcycle, hnodup, fun cycle hother ↦ ?_⟩
  exact hshortest cycle ((Digraph.cycleThrough_inside_iff hdecompose hc hstart).mpr hother)

/-- Two cycles through one node, of which the second takes a shortcut. -/
def knotted : Graph :=
  .ofParts [⟨.binary .add 2 3 none, 0⟩, ⟨.binary .sub 0 0 none, 1⟩, ⟨.binary .mul 1 0 none, 2⟩,
    ⟨.binding 1 none, 3⟩]
    []

private theorem knotted_built : knotted.Built := built_of_nodup (by decide) (by decide)

private theorem cycleFault_knotted :
    knotted.cycleFault [0, 1, 2, 3] = .combinationalCycle [(0, .add), (2, .mul), (0, .add)] := by
  have hsorted : ([0, 1, 2, 3] : List Int).mergeSort (· ≤ ·) = [0, 1, 2, 3] :=
    List.mergeSort_of_pairwise (by decide)
  rw [cycleFault, hsorted]
  rfl

theorem combinationalCycle_knotted :
    knotted.validate = .error (.combinationalCycle [(0, .add), (2, .mul), (0, .add)]) ∧
      Digraph.CycleThrough knotted.operands 0 [0, 2, 0] ∧
      Digraph.CycleThrough knotted.operands 0 [0, 1, 3, 0] ∧
      ∀ cycle, Digraph.CycleThrough knotted.operands 0 cycle → 3 ≤ cycle.length := by
  have hvalidate : knotted.validate =
      .error (.combinationalCycle [(0, .add), (2, .mul), (0, .add)]) := by
    rw [← cycleFault_knotted]
    rfl
  obtain ⟨start, chain, hlinks, hchain, -, hshortest⟩ :=
    combinationalCycle_shortest knotted_built hvalidate
  obtain rfl : chain = [0, 2, 0] := by
    simpa [Function.comp_def] using (congrArg (List.map Prod.fst) hlinks).symm
  obtain rfl : 0 = start := Option.some_inj.mp hchain.first
  exact ⟨hvalidate, hchain, ⟨by decide, rfl, rfl, by decide⟩, hshortest⟩

end Datapath.Graph
