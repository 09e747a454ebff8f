import Datapath.Proofs.Graph.Built
import Mathlib.Data.List.Perm.Subperm

/-!
# Nodes that become ready

Nodes are put in order by counting: placing a node counts down for each use of it, and a node is
ready when nothing is left to count. This module gives the same order without numbers. A node is
ready when all its operands have been placed (`readied`), and the nodes are placed as they become
ready (`readyOrder`). The two agree: `operandOrder_eq`.

## Placing

Placing keeps the queue and the nodes placed together equal to the nodes that are ready, each once,
so a node enters the queue at the moment when its last operand is placed. Fuel for every node is
enough, because no node is placed twice.

## Why they agree

For each node the count is the number of uses of operands that have not been placed, as `tally`
says. A node that is placed has not been placed before, so the uses of it are counted down for the
first time. They come to nothing exactly if no other operand is missing, and then at the last of the
uses, so no node becomes ready twice.
-/

namespace Datapath.Graph

variable {g : Graph} {n : Node} {id : Int}

/-- The consumers of a node that have all their operands among the nodes placed. -/
def readied (g : Graph) (placed : List Int) (id : Int) : List Int :=
  (g.nodes.filter fun n ↦ n.operands.contains id && n.operands.all (placed.contains ·)).map (·.id)

/-- Places the nodes of the queue, and those that become ready by it. `placed` is in reverse. -/
def place (g : Graph) : Nat → List Int → List Int → List Int
  | 0, _, placed => placed
  | _ + 1, [], placed => placed
  | fuel + 1, id :: queue, placed =>
    let placed := id :: placed
    place g fuel (queue ++ g.readied placed id) placed

/-- The nodes without operands. -/
def sources (g : Graph) : List Int := (g.nodes.filter (·.operands.isEmpty)).map (·.id)

/-- The nodes in the order in which they become ready; those that never do are missing. -/
def readyOrder (g : Graph) : List Int := (place g g.nodes.length g.sources []).reverse

theorem exists_node_of_mem_operands {o : Int} (h : o ∈ g.operands id) :
    ∃ n ∈ g.nodes, n.id = id ∧ o ∈ n.operands := by
  rw [operands] at h
  cases hn : g.node? id with
  | none => simp [hn] at h
  | some n =>
    obtain ⟨hmem, hid⟩ := mem_nodes_of_node?_eq_some hn
    exact ⟨n, hmem, hid, by simpa [hn] using h⟩

theorem Coherent.mem_consumers_iff (hg : g.Coherent) {x : Int} :
    x ∈ g.consumers id ↔ id ∈ g.operands x := by
  rw [hg.consumers_eq, List.mem_flatMap]
  constructor
  · rintro ⟨n, hn, hx⟩
    obtain ⟨hcount, rfl⟩ := List.mem_replicate.mp hx
    rw [hg.operands_id hn]
    exact List.count_pos_iff.mp (Nat.pos_of_ne_zero hcount)
  · intro ho
    obtain ⟨n, hn, rfl, ho'⟩ := exists_node_of_mem_operands ho
    exact ⟨n, hn, List.mem_replicate.mpr ⟨Nat.ne_of_gt (List.count_pos_iff.mpr ho'), rfl⟩⟩

/-! ## Placing -/

/-- What holds while nodes are placed; `placed` is in reverse. -/
structure Placing (g : Graph) (queue placed : List Int) : Prop where
  nodup : (queue ++ placed).Nodup
  known : ∀ id ∈ queue ++ placed, id ∈ g.ids
  /-- The nodes queued or placed are those that are ready. -/
  ready_iff : ∀ n ∈ g.nodes, n.id ∈ queue ++ placed ↔ ∀ o ∈ n.operands, o ∈ placed
  /-- Operands are placed before their consumers. -/
  sorted : ∀ later id earlier, placed = later ++ id :: earlier → ∀ o ∈ g.operands id, o ∈ earlier

theorem mem_readied_iff {placed : List Int} {x : Int} : x ∈ g.readied placed id ↔
    ∃ n ∈ g.nodes, id ∈ n.operands ∧ (∀ o ∈ n.operands, o ∈ placed) ∧ n.id = x := by
  simp only [readied, List.mem_map, List.mem_filter, Bool.and_eq_true, List.contains_iff_mem,
    List.all_eq_true, and_assoc]

namespace Placing

variable {queue placed : List Int}

theorem start (h : g.Coherent) :
    Placing g g.sources [] where
  nodup := by
    rw [List.append_nil]
    exact (List.filter_sublist.map _).nodup h.ids_nodup
  known := by
    rw [List.append_nil]
    exact (List.filter_sublist.map _).subset
  ready_iff := by
    intro n hn
    rw [List.append_nil, sources, List.mem_map]
    constructor
    · rintro ⟨m, hm, hid⟩ o ho
      obtain ⟨hm, hempty⟩ := List.mem_filter.mp hm
      rw [h.eq_of_id_eq hm hn hid] at hempty
      rw [List.isEmpty_iff.mp hempty] at ho
      exact ho
    · intro hready
      refine ⟨n, List.mem_filter.mpr ⟨hn, ?_⟩, rfl⟩
      rw [List.isEmpty_iff, List.eq_nil_iff_forall_not_mem]
      exact fun o ho ↦ List.not_mem_nil (hready o ho)
  sorted := by simp

/-- A node that becomes ready now was not ready before. -/
private theorem notMem_of_mem_readied (h : Placing g (id :: queue) placed) {x : Int}
    (hx : x ∈ g.readied (id :: placed) id) : x ∉ id :: queue ++ placed := by
  obtain ⟨n, hn, hid, -, rfl⟩ := mem_readied_iff.mp hx
  intro hmem
  have hplaced := (h.ready_iff n hn).mp hmem id hid
  exact (List.nodup_cons.mp h.nodup).1 (List.mem_append_right _ hplaced)

/-- The first node of the queue is placed. -/
theorem step (hg : g.Coherent) (h : Placing g (id :: queue) placed) :
    Placing g (queue ++ g.readied (id :: placed) id) (id :: placed) where
  nodup := by
    have hperm : (queue ++ g.readied (id :: placed) id ++ id :: placed).Perm
        (g.readied (id :: placed) id ++ (id :: queue ++ placed)) :=
      (List.perm_append_comm.append_right _).trans (by
        rw [List.append_assoc]
        exact List.perm_middle.append_left _)
    rw [hperm.nodup_iff, List.nodup_append]
    refine ⟨(List.filter_sublist.map _).nodup hg.ids_nodup, h.nodup, ?_⟩
    rintro x hx y hy rfl
    exact h.notMem_of_mem_readied hx hy
  known := by
    intro x hx
    rcases List.mem_append.mp hx with hx | hx
    · rcases List.mem_append.mp hx with hx | hx
      · exact h.known x (List.mem_append_left _ (List.mem_cons_of_mem _ hx))
      · exact (List.filter_sublist.map _).subset hx
    · rcases List.mem_cons.mp hx with rfl | hx
      · exact h.known x List.mem_cons_self
      · exact h.known x (List.mem_append_right _ hx)
  ready_iff := by
    -- a node that was not ready is ready now only if the node placed is one of its operands
    intro n hn
    have hold := h.ready_iff n hn
    constructor
    · intro hmem o ho
      by_cases hready : n.id ∈ g.readied (id :: placed) id
      · obtain ⟨m, hm, -, hall, hid⟩ := mem_readied_iff.mp hready
        rw [hg.eq_of_id_eq hm hn hid] at hall
        exact hall o ho
      · refine List.mem_cons_of_mem _ (hold.mp ?_ o ho)
        simp only [List.mem_append, List.mem_cons] at hmem ⊢
        tauto
    · intro hall
      by_cases hid : id ∈ n.operands
      · have hready := mem_readied_iff.mpr ⟨n, hn, hid, hall, rfl⟩
        exact List.mem_append_left _ (List.mem_append_right _ hready)
      · have hmem := hold.mpr fun o ho ↦ by
          rcases List.mem_cons.mp (hall o ho) with rfl | ho'
          · exact absurd ho hid
          · exact ho'
        simp only [List.mem_append, List.mem_cons] at hmem ⊢
        tauto
  sorted := by
    intro later x earlier heq o ho
    cases later with
    | nil =>
      rw [List.nil_append, List.cons.injEq] at heq
      obtain ⟨rfl, rfl⟩ := heq
      obtain ⟨n, hn, rfl, ho'⟩ := exists_node_of_mem_operands ho
      exact (h.ready_iff n hn).mp List.mem_cons_self o ho'
    | cons y later =>
      rw [List.cons_append, List.cons.injEq] at heq
      exact h.sorted later x earlier heq.2 o ho

theorem length_le (h : Placing g queue placed) : queue.length + placed.length ≤ g.nodes.length := by
  have hsub := (List.subperm_of_subset h.nodup h.known).length_le
  rwa [List.length_append, ids, List.length_map] at hsub

/-- With fuel for the nodes that are left, placing ends with an empty queue. -/
theorem run (hg : g.Coherent) : ∀ (fuel : Nat) (queue placed : List Int),
    Placing g queue placed → g.nodes.length ≤ fuel + placed.length →
    Placing g [] (place g fuel queue placed) := by
  intro fuel
  induction fuel with
  | zero =>
    intro queue placed h hfuel
    have hlength := h.length_le
    have hqueue : queue = [] := List.eq_nil_of_length_eq_zero (by omega)
    subst hqueue
    exact h
  | succ fuel ih =>
    intro queue placed h hfuel
    cases queue with
    | nil => exact h
    | cons id queue =>
      rw [place]
      refine ih _ _ (h.step hg) ?_
      rw [List.length_cons]
      omega

end Placing

/-! ## The order -/

theorem placing_readyOrder (hg : g.Coherent) : Placing g [] g.readyOrder.reverse := by
  rw [readyOrder, List.reverse_reverse]
  exact Placing.run hg _ _ _ (Placing.start hg) (by simp)

theorem nodup_readyOrder (hg : g.Coherent) : g.readyOrder.Nodup := by
  have h := (placing_readyOrder hg).nodup
  rwa [List.nil_append, List.nodup_reverse] at h

theorem mem_ids_of_mem_readyOrder (hg : g.Coherent) (h : id ∈ g.readyOrder) : id ∈ g.ids :=
  (placing_readyOrder hg).known id (by simpa using h)

/-- A node is placed if and only if all its operands are. -/
theorem mem_readyOrder_iff (hg : g.Coherent) (hn : n ∈ g.nodes) :
    n.id ∈ g.readyOrder ↔ ∀ o ∈ n.operands, o ∈ g.readyOrder := by
  simpa using (placing_readyOrder hg).ready_iff n hn

/-! ## Counting -/

namespace Countdown

variable {before after : List (Int × Int)} {ready placed : List Int} {x v : Int}

private theorem map_counts_of_notMem {entries : List (Int × Int)} (h : x ∉ entries.map (·.1)) :
    entries.map (fun e ↦ (e.1, if e.1 = x then e.2 - 1 else e.2)) = entries := by
  conv_rhs => rw [← List.map_id entries]
  refine List.map_congr_left fun e he ↦ ?_
  rw [if_neg fun heq : e.1 = x ↦ h (heq ▸ List.mem_map_of_mem he)]
  rfl

private theorem lookup_of_notMem (h : x ∉ before.map (·.1)) :
    (before ++ (x, v) :: after).lookup x = some v := by
  induction before with
  | nil => exact List.lookup_cons_self
  | cons e before ih =>
    rw [List.map_cons, List.mem_cons, not_or] at h
    rw [List.cons_append, List.lookup_cons, beq_false_of_ne h.1]
    exact ih h.2

private theorem release_eq (hbefore : x ∉ before.map (·.1)) (hafter : x ∉ after.map (·.1)) :
    release ⟨before ++ (x, v) :: after, ready, placed⟩ x =
      ⟨before ++ (x, v - 1) :: after, ready ++ if v = 1 then [x] else [], placed⟩ := by
  have hcounts : (before ++ (x, v) :: after).map
      (fun e ↦ (e.1, if e.1 = x then e.2 - 1 else e.2)) = before ++ (x, v - 1) :: after := by
    rw [List.map_append, List.map_cons, map_counts_of_notMem hbefore, map_counts_of_notMem hafter,
      if_pos rfl]
  have hrelease : ∀ c : Countdown, c.release x =
      let pending := c.pending.map fun e ↦ (e.1, if e.1 = x then e.2 - 1 else e.2)
      if pending.lookup x = some 0 then { c with pending, ready := c.ready ++ [x] }
      else { c with pending } := fun _ ↦ rfl
  rw [hrelease]
  dsimp only
  rw [hcounts, lookup_of_notMem hbefore]
  by_cases hv : v = 1
  · rw [if_pos (congrArg some (by omega)), if_pos hv]
  · rw [if_neg (fun h ↦ hv (by have := Option.some_inj.mp h; omega)), if_neg hv, List.append_nil]

/-- All uses of one operand by a node. -/
theorem foldl_release_replicate (hbefore : x ∉ before.map (·.1)) (hafter : x ∉ after.map (·.1))
    {uses : Nat} (huses : uses ≤ v) :
    (List.replicate uses x).foldl release ⟨before ++ (x, v) :: after, ready, placed⟩ =
      ⟨before ++ (x, v - uses) :: after,
        ready ++ if 0 < uses ∧ v = uses then [x] else [], placed⟩ := by
  induction uses generalizing v ready with
  | zero => simp
  | succ uses ih =>
    rw [List.replicate_succ, List.foldl_cons, release_eq hbefore hafter, ih (by omega),
      List.append_assoc]
    -- the last use brings the count to nothing, or none does
    have hready : ((if v = 1 then [x] else []) ++
        if 0 < uses ∧ v - 1 = uses then [x] else []) =
        if 0 < uses + 1 ∧ v = (uses + 1 : Nat) then [x] else [] := by
      rcases Nat.eq_zero_or_pos uses with rfl | hpos
      · simp
      · rw [if_neg (by omega), List.nil_append]
        exact if_congr (by omega) rfl rfl
    rw [hready, show v - 1 - uses = v - (uses + 1 : Nat) by omega]

end Countdown

/-- The count of a node: its uses of operands that have not been placed. -/
def missing (placed : List Int) (n : Node) : Nat := n.operands.countP (!placed.contains ·)

/-- The state of counting with a queue and some nodes placed. -/
def tally (g : Graph) (queue placed : List Int) : Countdown :=
  ⟨g.nodes.map fun n ↦ (n.id, (missing placed n : Int)), queue, placed⟩

private theorem countdown_eq (g : Graph) : g.countdown = g.tally g.sources [] := by
  have hmissing : ∀ n : Node, missing [] n = n.operands.length := fun n ↦ by simp [missing]
  have hempty : ∀ n : Node, decide ((n.operands.length : Int) = 0) = n.operands.isEmpty := by
    intro n
    rw [Bool.eq_iff_iff, decide_eq_true_eq, List.isEmpty_iff_length_eq_zero]
    omega
  rw [countdown, tally, sources, List.filter_map, List.map_map]
  simp only [hmissing, Function.comp_def, hempty]

/-- Placing a node counts down the uses of it. -/
theorem missing_cons {placed : List Int} (hid : id ∉ placed) (n : Node) :
    missing placed n = missing (id :: placed) n + n.operands.count id := by
  rw [missing, missing]
  induction n.operands with
  | nil => rfl
  | cons o operands ih =>
    rw [List.countP_cons, List.countP_cons, List.count_cons, ih]
    by_cases ho : o = id
    · simp [ho, hid]
      omega
    · simp [ho]
      omega

theorem missing_eq_zero {placed : List Int} {n : Node} :
    missing placed n = 0 ↔ ∀ o ∈ n.operands, o ∈ placed := by
  rw [missing, List.countP_eq_zero]
  simp

/-- The uses of a node bring a count to nothing if no other operand is missing. -/
private theorem uses_eq_missing_iff {placed : List Int} (hid : id ∉ placed) (n : Node) :
    (0 < n.operands.count id ∧ (missing placed n : Int) = n.operands.count id) ↔
      (n.operands.contains id && n.operands.all ((id :: placed).contains ·)) = true := by
  have hzero : missing (id :: placed) n = 0 ↔ (missing placed n : Int) = n.operands.count id := by
    rw [missing_cons hid n]
    omega
  rw [← hzero, missing_eq_zero, List.count_pos_iff, Bool.and_eq_true, List.contains_iff_mem,
    List.all_eq_true]
  simp only [List.contains_iff_mem]

/-- The uses of a node by some nodes, after those by the nodes before them. -/
private theorem foldl_release_nodes {placed : List Int} (hid : id ∉ placed) (all : List Int)
    (done rest : List Node) (hnodup : ((done ++ rest).map (·.id)).Nodup) (ready : List Int) :
    (rest.flatMap fun n ↦ List.replicate (n.operands.count id) n.id).foldl Countdown.release
        ⟨done.map (fun n ↦ (n.id, (missing (id :: placed) n : Int))) ++
          rest.map (fun n ↦ (n.id, (missing placed n : Int))), ready, all⟩ =
      ⟨(done ++ rest).map fun n ↦ (n.id, (missing (id :: placed) n : Int)),
        ready ++ (rest.filter fun n ↦ n.operands.contains id &&
          n.operands.all ((id :: placed).contains ·)).map (·.id), all⟩ := by
  induction rest generalizing done ready with
  | nil => simp
  | cons n rest ih =>
    have hmissing := missing_cons hid n
    rw [List.append_cons] at hnodup ⊢
    have hsplit := hnodup
    rw [List.append_assoc, List.map_append, List.nodup_append, List.singleton_append,
      List.map_cons, List.nodup_cons] at hsplit
    have hbefore :
        n.id ∉ (done.map fun n ↦ (n.id, (missing (id :: placed) n : Int))).map (·.1) := by
      rw [List.map_map]
      exact fun hmem ↦ hsplit.2.2 n.id hmem n.id List.mem_cons_self rfl
    have hafter : n.id ∉ (rest.map fun n ↦ (n.id, (missing placed n : Int))).map (·.1) := by
      rw [List.map_map]
      exact hsplit.2.1.1
    have hready : (if 0 < n.operands.count id ∧ (missing placed n : Int) = n.operands.count id
        then [n.id] else []) ++ (rest.filter fun n ↦ n.operands.contains id &&
          n.operands.all ((id :: placed).contains ·)).map (·.id) =
        ((n :: rest).filter fun n ↦ n.operands.contains id &&
          n.operands.all ((id :: placed).contains ·)).map (·.id) := by
      rw [List.filter_cons]
      simp only [uses_eq_missing_iff hid n]
      split_ifs <;> rfl
    rw [List.flatMap_cons, List.foldl_append, List.map_cons,
      Countdown.foldl_release_replicate hbefore hafter (by omega),
      show (missing placed n : Int) - n.operands.count id = missing (id :: placed) n by omega]
    have hnext := ih (done ++ [n]) hnodup (ready ++ if 0 < n.operands.count id ∧
      (missing placed n : Int) = n.operands.count id then [n.id] else [])
    rw [List.append_assoc ready, hready] at hnext
    rw [← hnext]
    simp

theorem tally_step (hg : g.Coherent) {queue placed : List Int} (hid : id ∉ placed) :
    (g.consumers id).foldl Countdown.release
        { g.tally (id :: queue) placed with ready := queue, placed := id :: placed } =
      g.tally (queue ++ g.readied (id :: placed) id) (id :: placed) := by
  rw [hg.consumers_eq]
  exact foldl_release_nodes hid (id :: placed) [] g.nodes hg.ids_nodup queue

/-- **Counting follows placing.** -/
theorem run_tally (hg : g.Coherent) {queue placed : List Int} (h : Placing g queue placed)
    (fuel : Nat) : ∃ rest, (g.tally queue placed).run g.consumers fuel =
      g.tally rest (g.place fuel queue placed) := by
  induction fuel generalizing queue placed with
  | zero => exact ⟨queue, rfl⟩
  | succ fuel ih =>
    cases queue with
    | nil => exact ⟨[], rfl⟩
    | cons id queue =>
      have hid : id ∉ placed := fun hmem ↦
        (List.nodup_cons.mp h.nodup).1 (List.mem_append_right _ hmem)
      obtain ⟨rest, hrest⟩ := ih (h.step hg)
      refine ⟨rest, ?_⟩
      rw [place, ← hrest, ← tally_step hg hid]
      rfl

theorem counted_eq (hg : g.Coherent) : ∃ rest, g.counted = g.tally rest g.readyOrder.reverse := by
  rw [counted, countdown_eq, readyOrder, List.reverse_reverse]
  exact run_tally hg (.start hg) _

theorem order_counted (hg : g.Coherent) : g.counted.order = g.readyOrder := by
  obtain ⟨rest, hcounted⟩ := counted_eq hg
  rw [hcounted]
  exact List.reverse_reverse _

/-- The nodes that still wait are those that have not been placed. -/
theorem waiting_tally (hg : g.Coherent) (rest : List Int) :
    (g.tally rest g.readyOrder.reverse).waiting = g.ids.filter (!g.readyOrder.contains ·) := by
  rw [Countdown.waiting, tally, List.filter_map, List.map_map, ids, List.filter_map]
  refine congrArg _ (List.filter_congr fun n hn ↦ ?_)
  have hzero : missing g.readyOrder.reverse n = 0 ↔ ∀ o ∈ n.operands, o ∈ g.readyOrder.reverse :=
    missing_eq_zero
  simp only [List.mem_reverse] at hzero
  rw [Bool.eq_iff_iff]
  simp only [Function.comp_apply, decide_eq_true_eq, Bool.not_eq_true', List.contains_eq_mem,
    decide_eq_false_iff_not, mem_readyOrder_iff hg hn, ← hzero]
  omega

/-- **Counting and testing give the same order.** -/
theorem operandOrder_eq (hg : g.Coherent) :
    g.operandOrder = if g.readyOrder.length = g.nodes.length then .ok g.readyOrder
      else .error (g.cycleFault (g.ids.filter (!g.readyOrder.contains ·))) := by
  obtain ⟨rest, hrest⟩ := counted_eq hg
  rw [operandOrder, order_counted hg, hrest, waiting_tally hg]

end Datapath.Graph
