import Datapath.Proofs.Digraph.Path
import Datapath.Proofs.Graph.Ready

/-!
# The order of operations

When some node is never placed, each such node has an operand that is never placed either, and a
finite set with this property holds a cycle. The order is therefore complete exactly when the
operand relation is acyclic; otherwise the cycle lies in one component of the operand relation, and
the search for a cyclic component finds one.
-/

namespace Datapath.Graph

open Relation

variable {g : Graph} {n : Node} {id : Int}

/-- No node depends on itself through operands. -/
def Acyclic (g : Graph) : Prop := ∀ id, ¬ TransGen (fun a b ↦ b ∈ g.operands a) id id

/-- Every operand is a node. -/
def OperandsKnown (g : Graph) : Prop := ∀ n ∈ g.nodes, ∀ o ∈ n.operands, o ∈ g.ids

theorem OperandsKnown.mem_ids (h : g.OperandsKnown) {o : Int} (ho : o ∈ g.operands id) :
    o ∈ g.ids := by
  obtain ⟨n, hn, -, ho⟩ := exists_node_of_mem_operands ho
  exact h n hn o ho

/-! ## The order -/

theorem readyOrder_sorted (hg : g.Coherent) {earlier later : List Int}
    (h : g.readyOrder = earlier ++ id :: later) : ∀ o ∈ g.operands id, o ∈ earlier := by
  intro o ho
  have hsorted := (placing_readyOrder hg).sorted later.reverse id earlier.reverse
    (by rw [h]; simp) o ho
  exact List.mem_reverse.mp hsorted

theorem pairwise_readyOrder (hg : g.Coherent) :
    g.readyOrder.Pairwise fun a b ↦ b ∉ g.operands a := by
  refine List.pairwise_iff_forall_sublist.mpr fun {a b} hsub hmem ↦ ?_
  obtain ⟨front, back, heq, ha, hb⟩ := List.cons_sublist_iff.mp hsub
  obtain ⟨earlier, later, rfl⟩ := List.append_of_mem ha
  have hsplit : g.readyOrder = earlier ++ a :: (later ++ back) := by rw [heq]; simp
  have hnodup := nodup_readyOrder hg
  rw [heq, List.nodup_append] at hnodup
  -- the operand stands before the consumer, so it cannot come after it as well
  have hfront : b ∈ earlier := readyOrder_sorted hg hsplit b hmem
  exact hnodup.2.2 b (List.mem_append_left _ hfront) b (List.singleton_sublist.mp hb) rfl

theorem idxOf_lt_of_mem_operands (hg : g.Coherent) {o : Int} (hid : id ∈ g.readyOrder)
    (ho : o ∈ g.operands id) : g.readyOrder.idxOf o < g.readyOrder.idxOf id := by
  obtain ⟨earlier, later, heq⟩ := List.append_of_mem hid
  have hmem := readyOrder_sorted hg heq o ho
  have hnodup := nodup_readyOrder hg
  rw [heq] at hnodup ⊢
  have hnot : id ∉ earlier := fun h ↦
    (List.nodup_append.mp hnodup).2.2 id h id List.mem_cons_self rfl
  rw [List.idxOf_append_of_mem hmem, List.idxOf_append_of_notMem hnot, List.idxOf_cons_self]
  exact List.idxOf_lt_length_of_mem hmem

theorem length_readyOrder_eq_iff (hg : g.Coherent) :
    g.readyOrder.length = g.nodes.length ↔ ∀ id ∈ g.ids, id ∈ g.readyOrder := by
  have hsub : g.readyOrder.Subperm g.ids :=
    List.subperm_of_subset (nodup_readyOrder hg) fun _ ↦ mem_ids_of_mem_readyOrder hg
  have hlength : g.ids.length = g.nodes.length := by rw [ids, List.length_map]
  constructor
  · intro heq id hid
    exact (hsub.perm_of_length_le (by omega)).mem_iff.mpr hid
  · intro hall
    have hsup : g.ids.Subperm g.readyOrder := List.subperm_of_subset hg.ids_nodup fun id ↦ hall id
    have h₁ := hsub.length_le
    have h₂ := hsup.length_le
    omega

/-- Some nodes that are never placed form a cycle. -/
theorem exists_cycle_of_stuck (hg : g.Coherent) (hknown : g.OperandsKnown)
    (hne : g.ids.filter (!g.readyOrder.contains ·) ≠ []) :
    ∃ id ∈ g.ids.filter (!g.readyOrder.contains ·),
      TransGen (fun a b ↦ b ∈ g.operands a) id id := by
  refine Digraph.exists_cycle hne fun id hid ↦ ?_
  simp only [List.mem_filter, Bool.not_eq_true', List.contains_eq_mem, decide_eq_false_iff_not]
    at hid ⊢
  obtain ⟨n, hn, rfl⟩ := List.mem_map.mp hid.1
  have hwaiting := mt (mem_readyOrder_iff hg hn).mpr hid.2
  push Not at hwaiting
  obtain ⟨o, ho, hstuck⟩ := hwaiting
  exact ⟨o, ⟨hknown n hn o ho, hstuck⟩, by rwa [hg.operands_id hn]⟩

/-- **The order is complete exactly when the operand relation is acyclic.** -/
theorem mem_readyOrder_iff_acyclic (hg : g.Coherent) (hknown : g.OperandsKnown) :
    (∀ id ∈ g.ids, id ∈ g.readyOrder) ↔ g.Acyclic := by
  constructor
  · intro hall id hcycle
    -- from a node to its operands the place decreases, so no node can come back to itself
    have hdecreases : ∀ a b, TransGen (fun a b ↦ b ∈ g.operands a) a b →
        g.readyOrder.idxOf b < g.readyOrder.idxOf a := by
      intro a b hab
      have hstep : ∀ a b, b ∈ g.operands a → g.readyOrder.idxOf b < g.readyOrder.idxOf a := by
        intro a b hb
        obtain ⟨n, hn, rfl, -⟩ := exists_node_of_mem_operands hb
        exact idxOf_lt_of_mem_operands hg (hall _ (mem_ids_of_mem_nodes hn)) hb
      induction hab with
      | single hb => exact hstep _ _ hb
      | tail _ hb ih => exact (hstep _ _ hb).trans ih
    exact (lt_irrefl _) (hdecreases id id hcycle)
  · intro hacyclic id hid
    by_contra hstuck
    obtain ⟨x, -, hcycle⟩ := exists_cycle_of_stuck hg hknown
      (List.ne_nil_of_mem (a := id) (List.mem_filter.mpr ⟨hid, by simpa using hstuck⟩))
    exact hacyclic x hcycle

/-! ## Cycles -/

theorem operands_decompose (hknown : g.OperandsKnown) (vertices : List Int)
    (hvertices : ∀ v ∈ vertices, v ∈ g.ids) :
    Digraph.Decomposes g.operands vertices
      (Digraph.components g.nodes.length g.operands vertices) := by
  refine Digraph.components_decompose (U := g.ids.toFinset) ?_ ?_ ?_
  · exact fun _ _ w hw ↦ List.mem_toFinset.mpr (hknown.mem_ids hw)
  · exact fun v hv ↦ List.mem_toFinset.mpr (hvertices v hv)
  · have hcard := List.toFinset_card_le g.ids
    rwa [ids, List.length_map] at hcard

/-- A component that holds a vertex of a cycle is cyclic. -/
theorem isCyclic_of_cycle {vertices : List Int} {components : List (List Int)}
    (h : Digraph.Decomposes g.operands vertices components) {c : List Int} (hc : c ∈ components)
    (hid : id ∈ c) (hcycle : TransGen (fun a b ↦ b ∈ g.operands a) id id) :
    g.isCyclic c = true := by
  obtain ⟨y, hy, hback⟩ := TransGen.head'_iff.mp hcycle
  rw [isCyclic, Bool.or_eq_true]
  by_cases heq : y = id
  · right
    rw [List.any_eq_true]
    exact ⟨id, hid, by simpa [heq] using hy⟩
  · left
    have hyc := h.mem_of_reaches hc hid (ReflTransGen.single hy) hback
    have hsub : [y, id].Subperm c :=
      List.subperm_of_subset (by simpa using heq) (by simp [hyc, hid])
    exact decide_eq_true hsub.length_le

theorem least_mem {ids : List Int} (hne : ids ≠ []) : least ids ∈ ids := by
  have hfold : ∀ (rest : List Int) (a : Int), rest.foldl min a ∈ a :: rest := by
    intro rest
    induction rest with
    | nil => intro a; exact List.mem_cons_self
    | cons b rest ih =>
      intro a
      rw [List.foldl_cons]
      rcases List.mem_cons.mp (ih (min a b)) with heq | hmem
      · rw [heq]
        rcases min_choice a b with h | h
        · rw [h]; exact List.mem_cons_self
        · rw [h]; exact List.mem_cons_of_mem _ List.mem_cons_self
      · exact List.mem_cons_of_mem _ (List.mem_cons_of_mem _ hmem)
  cases ids with
  | nil => exact absurd rfl hne
  | cons a rest => exact hfold rest a

/-- A cyclic component has a cycle through its least node. -/
theorem shortestCycle_isSome_of_isCyclic {vertices : List Int} {components : List (List Int)}
    (h : Digraph.Decomposes g.operands vertices components) {c : List Int} (hc : c ∈ components)
    (hcyclic : g.isCyclic c = true) :
    (Digraph.shortestCycle (c.length + 1) (fun id ↦ (g.operands id).filter (c.contains ·))
      (least c)).isSome := by
  have hleast := least_mem (h.ne_nil c hc)
  have hclosed : ∀ x ∈ c.toFinset, ∀ w ∈ (g.operands x).filter (c.contains ·), w ∈ c.toFinset :=
    fun x _ w hw ↦ by
      rw [List.mem_toFinset]
      simpa using (List.mem_filter.mp hw).2
  have hfuel : c.toFinset.card < c.length + 1 := Nat.lt_succ_of_le (List.toFinset_card_le c)
  obtain ⟨u, hu, hback⟩ : ∃ u,
      Digraph.Reaches (fun id ↦ (g.operands id).filter (c.contains ·)) (least c) u ∧
        least c ∈ (g.operands u).filter (c.contains ·) := by
    by_cases hlength : 1 < c.length
    · exact h.exists_return hc hlength hleast
    · rw [isCyclic, Bool.or_eq_true, decide_eq_true_eq, List.any_eq_true] at hcyclic
      obtain hlt | ⟨x, hx, hself⟩ := hcyclic
      · exact absurd hlt hlength
      · obtain ⟨a, rfl⟩ : ∃ a, c = [a] := List.length_eq_one_iff.mp (by
          have := List.length_pos_iff.mpr (h.ne_nil c hc)
          omega)
        rw [List.mem_singleton.mp hx] at hself
        exact ⟨a, ReflTransGen.refl,
          List.mem_filter.mpr ⟨List.contains_iff_mem.mp hself, by simpa using hleast⟩⟩
  exact Digraph.shortestCycle_isSome hclosed (List.mem_toFinset.mpr hleast) hu hback hfuel

theorem exists_cyclic_component (hg : g.Coherent) (hknown : g.OperandsKnown)
    (hne : g.ids.filter (!g.readyOrder.contains ·) ≠ []) :
    ∃ c, (Digraph.components g.nodes.length g.operands
        ((g.ids.filter (!g.readyOrder.contains ·)).mergeSort (· ≤ ·))).find? g.isCyclic = some c ∧
      ∃ vertices components, Digraph.Decomposes g.operands vertices components ∧
        c ∈ components := by
  set stuck := g.ids.filter (!g.readyOrder.contains ·) with hstuck
  obtain ⟨id, hid, hcycle⟩ := exists_cycle_of_stuck hg hknown hne
  have hdecompose := operands_decompose hknown (stuck.mergeSort (· ≤ ·)) fun v hv ↦
    (List.mem_filter.mp (List.mem_mergeSort.mp hv)).1
  obtain ⟨c, hc, hidc⟩ := hdecompose.exists_mem (List.mem_mergeSort.mpr hid)
  obtain ⟨found, hfound⟩ := Option.isSome_iff_exists.mp (List.find?_isSome.mpr
    ⟨c, hc, isCyclic_of_cycle hdecompose hc hidc hcycle⟩)
  exact ⟨found, hfound, _, _, hdecompose, List.mem_of_find?_eq_some hfound⟩

theorem operandOrder_of_acyclic (hg : g.Coherent) (hknown : g.OperandsKnown) (h : g.Acyclic) :
    g.operandOrder = .ok g.readyOrder := by
  rw [operandOrder_eq hg, if_pos]
  exact (length_readyOrder_eq_iff hg).mpr ((mem_readyOrder_iff_acyclic hg hknown).mpr h)

theorem acyclic_of_operandOrder (hg : g.Coherent) (hknown : g.OperandsKnown) {order : List Int}
    (h : g.operandOrder = .ok order) : g.Acyclic ∧ order = g.readyOrder := by
  rw [operandOrder_eq hg] at h
  split at h
  case isTrue hlength =>
    cases h
    have hall := (length_readyOrder_eq_iff hg).mp hlength
    exact ⟨(mem_readyOrder_iff_acyclic hg hknown).mp hall, rfl⟩
  case isFalse => cases h

/-- A graph without an order shows a cycle, and the search for a shortest one in a component finds
it. -/
theorem operandOrder_error (hg : g.Coherent) (hknown : g.OperandsKnown) {fault : Malformed}
    (h : g.operandOrder = .error fault) :
    ∃ (component cycle : List Int),
      (∃ vertices components, Digraph.Decomposes g.operands vertices components ∧
        component ∈ components) ∧
      Digraph.shortestCycle (component.length + 1)
        (fun id ↦ (g.operands id).filter (component.contains ·)) (least component) = some cycle ∧
      fault = .combinationalCycle (cycle.map fun id ↦ (id, g.kindOf id)) := by
  rw [operandOrder_eq hg] at h
  split at h
  case isTrue => cases h
  case isFalse hlength =>
    injection h with h
    have hne : g.ids.filter (!g.readyOrder.contains ·) ≠ [] := by
      intro hnil
      refine hlength ((length_readyOrder_eq_iff hg).mpr fun id hid ↦ ?_)
      by_contra hstuck
      have hmem : id ∈ g.ids.filter (!g.readyOrder.contains ·) :=
        List.mem_filter.mpr ⟨hid, by simpa using hstuck⟩
      rw [hnil] at hmem
      exact List.not_mem_nil hmem
    obtain ⟨c, hc, vertices, components, hdecompose, hmem⟩ := exists_cyclic_component hg hknown hne
    obtain ⟨cycle, hcycle⟩ := Option.isSome_iff_exists.mp
      (shortestCycle_isSome_of_isCyclic hdecompose hmem (List.find?_some hc))
    refine ⟨c, cycle, ⟨vertices, components, hdecompose, hmem⟩, hcycle, ?_⟩
    rw [← h, cycleFault]
    simp only [hc, hcycle, Option.getD_some]

/-- **The order of operations is correct and complete.** There is one exactly when the operand
relation has no cycle, and a graph without one is reported as a combinational cycle. The order holds
every node once, and every operand before its consumers. -/
theorem operandOrder_correct (h : g.Built) (hknown : g.OperandsKnown) :
    ((∃ order, g.operandOrder = .ok order) ↔ g.Acyclic) ∧
    (∀ order, g.operandOrder = .ok order → order.Nodup ∧ (∀ id, id ∈ order ↔ id ∈ g.ids) ∧
      ∀ earlier id later, order = earlier ++ id :: later → ∀ o ∈ g.operands id, o ∈ earlier) ∧
    (¬ g.Acyclic → ∃ links, g.operandOrder = .error (.combinationalCycle links)) := by
  have hg := h.coherent
  refine ⟨⟨?_, ?_⟩, ?_, ?_⟩
  · rintro ⟨order, horder⟩
    exact (acyclic_of_operandOrder hg hknown horder).1
  · intro hacyclic
    exact ⟨_, operandOrder_of_acyclic hg hknown hacyclic⟩
  · intro order horder
    obtain ⟨hacyclic, rfl⟩ := acyclic_of_operandOrder hg hknown horder
    have hall := (mem_readyOrder_iff_acyclic hg hknown).mpr hacyclic
    exact ⟨nodup_readyOrder hg, fun id ↦ ⟨mem_ids_of_mem_readyOrder hg, hall id⟩,
      fun earlier id later heq ↦ readyOrder_sorted hg heq⟩
  · intro hcyclic
    rcases horder : g.operandOrder with fault | order
    · obtain ⟨component, cycle, -, -, rfl⟩ := operandOrder_error hg hknown horder
      exact ⟨_, rfl⟩
    · exact absurd (acyclic_of_operandOrder hg hknown horder).1 hcyclic

/-- A sum of a node with itself, which comes later, and a product of the two. -/
def doubled : Graph :=
  .ofParts [⟨.binary .add 1 1 none, 0⟩, ⟨.const 3 none, 1⟩, ⟨.binary .mul 0 1 none, 2⟩] []

private theorem doubled_built : doubled.Built := built_of_nodup (by decide) (by decide)

theorem operandOrder_doubled : doubled.OperandsKnown ∧ doubled.operandOrder = .ok [1, 0, 2] ∧
    doubled.Acyclic ∧ ∀ o ∈ doubled.operands 2, o ∈ ([1, 0] : List Int) := by
  have hknown : doubled.OperandsKnown := show ∀ n ∈ doubled.nodes, ∀ o ∈ n.operands, _ by decide
  have horder : doubled.operandOrder = .ok [1, 0, 2] := rfl
  obtain ⟨hiff, hsorted, -⟩ := operandOrder_correct doubled_built hknown
  exact ⟨hknown, horder, hiff.mp ⟨_, horder⟩, (hsorted _ horder).2.2 [1, 0] 2 [] rfl⟩

end Datapath.Graph
