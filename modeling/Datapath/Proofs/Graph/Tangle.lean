import Datapath.Proofs.Digraph.Shortest
import Datapath.Proofs.Graph.Validation
import Mathlib.Data.String.Basic

/-!
# Tangled registers

When validation reports that several registers feed back into each other, the chain of nodes that it
shows is a closed walk along the flow of values. It leaves a read of the first register, enters the
second register by its write and leaves it by a read, and enters the first one by its write.

The component in which the registers meet is one of dependencies, while the walk is looked for along
the flow of values. Once every register has at most one write, the flow is the dependencies
reversed, so the nodes of a component lead to each other along the flow as well, and the searches
that make up the walk succeed.
-/

namespace Datapath.Graph

variable {g : Graph} {c : List Int} {names : List String} {chain : List Int}

/-- The registers that close a component are listed by name, each once. -/
theorem pairwise_closingRegisters (hg : g.Coherent) (h : g.WellFormed) (hc : c.Nodup) :
    ((g.closingRegisters c).map (·.1)).Pairwise (· < ·) := by
  have hsorted : (g.closingRegisters c).Pairwise fun a b ↦ decide (a.1 ≤ b.1) = true := by
    rw [closingRegisters]
    apply List.pairwise_mergeSort
    · intro x y z hxy hyz
      rw [decide_eq_true_eq] at *
      exact le_trans hxy hyz
    · intro x y
      simpa using le_total x.1 y.1
  have hnodup : (g.closingRegisters c).Nodup := nodup_closingRegisters hc
  refine List.pairwise_map.mpr ((hsorted.and hnodup).imp_of_mem ?_)
  rintro a b ha hb ⟨hle, hne⟩
  exact lt_of_le_of_ne (of_decide_eq_true hle) fun hname ↦
    hne (eq_of_mem_closingRegisters hg h ha hb hname)

/-- The faults of nodes, of registers and of the order of operations are no tangles, so a reported
one comes from a component. -/
theorem exists_component_of_validate (hg : g.Coherent)
    (h : g.validate = .error (.tangled names chain)) :
    g.WellFormed ∧ ∃ c ∈ g.dependencyComponents, ∃ first second rest,
      g.closingRegisters c = first :: second :: rest ∧
      names = (first :: second :: rest).map (·.1) ∧ chain = g.tangle c first second := by
  obtain ⟨hwell, harrange⟩ := arrange_of_validate hg h (fun n ↦ by grind [nodeFault])
    fun r ↦ by grind [registerFault]
  refine ⟨hwell, ?_⟩
  rcases arrange_eq_error hg hwell harrange with horder | ⟨hacyclic, c, hc, hloop⟩
  · obtain ⟨component, cycle, -, -, hfault⟩ := operandOrder_error hg hwell.operandsKnown horder
    cases hfault
  · obtain ⟨first, second, rest, hclosing, hfault⟩ :=
      tangled_of_feedbackLoop hg hwell hacyclic hc hloop
    injection hfault with hnames hchain
    exact ⟨c, hc, first, second, rest, hclosing, hnames, hchain⟩

/-! ## Ways along the flow of values -/

/-- A way along the flow of values from one node to another. -/
structure FlowPath (g : Graph) (source target : Int) (path : List Int) : Prop where
  /-- Each node is an operand of the next, or writes a register that the next one reads. -/
  linked : path.IsChain fun a b ↦ g.Depends b a
  first : path.head? = some source
  last : path.getLast? = some target

namespace FlowPath

variable {source target source' target' : Int} {path path' : List Int}

theorem of_shortestPath (hg : g.Coherent) (h : g.WellFormed) {fuel : Nat}
    (hpath : Digraph.shortestPath fuel (fun id ↦ (g.flow id).filter (c.contains ·)) source target =
      some path) : g.FlowPath source target path := by
  obtain ⟨hlinked, hfirst, hlast⟩ := Digraph.shortestPath_eq_some hpath
  exact ⟨hlinked.imp fun _ _ hb ↦ (h.mem_flow_iff hg).mp (List.mem_filter.mp hb).1, hfirst, hlast⟩

private theorem singleton (g : Graph) (id : Int) : g.FlowPath id id [id] :=
  ⟨List.isChain_singleton id, rfl, rfl⟩

theorem append (h : g.FlowPath source target path) (h' : g.FlowPath source' target' path')
    (hstep : g.Depends source' target) : g.FlowPath source target' (path ++ path') := by
  refine ⟨List.isChain_append.mpr ⟨h.linked, h'.linked, ?_⟩, ?_, ?_⟩
  · intro x hx y hy
    rw [h.last, Option.mem_some_iff] at hx
    rw [h'.first, Option.mem_some_iff] at hy
    rwa [← hx, ← hy]
  · rw [List.head?_append, h.first, Option.some_or]
  · rw [List.getLast?_append, h'.last, Option.some_or]

/-- A way between different nodes has two ends. -/
theorem exists_middle (h : g.FlowPath source target path) (hne : source ≠ target) :
    ∃ middle, path = source :: middle ++ [target] := by
  obtain ⟨before, rfl⟩ := List.getLast?_eq_some_iff.mp h.last
  have hfirst := h.first
  rcases before with _ | ⟨start, middle⟩
  · exact absurd (Option.some_inj.mp hfirst).symm hne
  · obtain rfl : start = source := Option.some_inj.mp hfirst
    exact ⟨middle, rfl⟩

end FlowPath

/-! ## The walk that is shown -/

/-- **A reported tangle is a closed walk through two registers.** The registers are named in order.
The walk starts and ends at a read of the first, and each of its nodes is an operand of the next or
writes a register that the next one reads. It goes from the write of the second register to a read
of it, and later passes the write of the first. Both searches that make it up have found a way. -/
theorem tangle_is_closed_walk (h : g.Built)
    (hvalidate : g.validate = .error (.tangled names chain)) :
    ∃ first second rest, names = first :: second :: rest ∧ names.Pairwise (· < ·) ∧
      ∃ read₁ ∈ g.reads (.str first), ∃ read₂ ∈ g.reads (.str second), ∃ write₁ write₂,
        g.writes (.str first) = [write₁] ∧ g.writes (.str second) = [write₂] ∧
        g.FlowPath read₁ read₁ chain ∧
        (∃ there back, chain = read₁ :: there ++ [write₂, read₂] ++ back ++ [write₁, read₁]) ∧
        ∃ c ∈ g.dependencyComponents, g.Tangled c (first, write₁) (second, write₂) chain := by
  have hg := h.coherent
  obtain ⟨hwell, c, hc, first, second, rest, hclosing, rfl, rfl⟩ :=
    exists_component_of_validate hg hvalidate
  have hfirst : first ∈ g.closingRegisters c := by simp [hclosing]
  have hsecond : second ∈ g.closingRegisters c := by simp [hclosing]
  have hpairwise := pairwise_closingRegisters hg hwell ((dependencies_decompose hg).nodup_of_mem hc)
  rw [hclosing] at hpairwise
  have hwrite₁ := ((mem_closingRegisters_iff hg).mp hfirst).2.1
  have hwrite₂ := ((mem_closingRegisters_iff hg).mp hsecond).2.1
  have htangled := tangled_tangle hg hwell hc hfirst hsecond
  obtain ⟨read₁, read₂, path₁, path₂, hfound₁, hfound₂, hpath₁, hpath₂, hchain⟩ := htangled
  have hread₁ := List.mem_of_find?_eq_some hfound₁
  have hread₂ := List.mem_of_find?_eq_some hfound₂
  have hway₁ := FlowPath.of_shortestPath hg hwell hpath₁
  have hway₂ := FlowPath.of_shortestPath hg hwell hpath₂
  obtain ⟨there, rfl⟩ := hway₁.exists_middle (hg.ne_of_mem_reads_of_mem_writes hread₁ hwrite₂)
  obtain ⟨back, rfl⟩ := hway₂.exists_middle (hg.ne_of_mem_reads_of_mem_writes hread₂ hwrite₁)
  refine ⟨first.1, second.1, rest.map (·.1), rfl, hpairwise, read₁, hread₁, read₂, hread₂, first.2,
    second.2, hwell.writes_eq hg hwrite₁, hwell.writes_eq hg hwrite₂, ?_, ⟨there, back, ?_⟩, c, hc,
    read₁, read₂, _, _, hfound₁, hfound₂, hpath₁, hpath₂, hchain⟩
  · rw [hchain]
    exact (hway₁.append hway₂ (.register hread₂ hwrite₂)).append (.singleton g read₁)
      (.register hread₁ hwrite₁)
  · rw [hchain]
    simp

/-- Two registers that both take the sum of their values. -/
def entangled : Graph :=
  .ofParts [⟨.regRead (.str "b") none, 0⟩, ⟨.regRead (.str "a") none, 1⟩,
    ⟨.binary .add 0 1 none, 2⟩, ⟨.regWrite (.str "b") 2 none, 3⟩,
    ⟨.regWrite (.str "a") 2 none, 4⟩]
    [⟨"b", 0, none, false⟩, ⟨"a", 1, none, false⟩]

theorem entangled_built : entangled.Built := built_of_nodup (by decide) (by decide)

private theorem closingRegisters_entangled :
    entangled.closingRegisters [4, 1, 2, 3, 0] = [("a", 4), ("b", 3)] := by
  rw [closingRegisters]
  exact List.mergeSort_of_pairwise (by decide +kernel)

private theorem feedbackLoop_entangled : entangled.feedbackLoop [0, 1, 2, 3, 4] [4, 1, 2, 3, 0] =
    .error (.tangled ["a", "b"] [1, 2, 3, 0, 2, 4, 1]) := by
  have htangle : entangled.tangle [4, 1, 2, 3, 0] ("a", 4) ("b", 3) = [1, 2, 3, 0, 2, 4, 1] := by
    decide +kernel
  rw [feedbackLoop, if_neg (by decide), closingRegisters_entangled, ← htangle]
  rfl

theorem validate_entangled :
    entangled.validate = .error (.tangled ["a", "b"] [1, 2, 3, 0, 2, 4, 1]) := by
  have horder : entangled.operandOrder = .ok [0, 1, 2, 3, 4] := rfl
  have hcomponents : entangled.dependencyComponents = [[4, 1, 2, 3, 0]] := by decide +kernel
  have harrange : entangled.arrange = .error (.tangled ["a", "b"] [1, 2, 3, 0, 2, 4, 1]) := by
    simp only [arrange, horder, hcomponents, Outcome.ok_bind, feedbackLoops, List.mapM_cons,
      feedbackLoop_entangled]
    rfl
  have hparts : entangled.partFault? = none := rfl
  rw [validate_eq_error, entangled_built.coherent.layout_eq, computeLayout, hparts, harrange]

/-- The walk goes from the read of `a` over the sum to the register `b`, and over the sum again back
to `a`. -/
theorem entangled_walk :
    entangled.validate = .error (.tangled ["a", "b"] [1, 2, 3, 0, 2, 4, 1]) ∧
      entangled.FlowPath 1 1 [1, 2, 3, 0, 2, 4, 1] := by
  obtain ⟨_, _, _, -, -, read₁, -, _, -, _, _, -, -, hpath, -⟩ :=
    tangle_is_closed_walk entangled_built validate_entangled
  obtain rfl : 1 = read₁ := Option.some_inj.mp hpath.first
  exact ⟨validate_entangled, hpath⟩

end Datapath.Graph
