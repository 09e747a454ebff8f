import Datapath.Proofs.Graph.Order
import Datapath.Proofs.Interval.Soundness
import Datapath.Proofs.Outcome
import Mathlib.Data.List.Chain

/-!
# Legal graphs

When a graph is legal, said without the algorithms that decide it: conditions on single nodes and
registers, no cycle of operands, and no closed walk of dependencies that passes through two
registers.

A read of a register depends on the write of the register. A walk that goes from a read to the write
of the same register *passes through* that register. Reads and writes are those that the tables of
the graph list, which are the nodes of these kinds (`Coherent.mem_reads_iff`).
-/

namespace Datapath

open Relation

/-- A register can hold a value: any value without a width, and otherwise the values with that many
bits. -/
def Register.Holds (r : Register) (value : Int) : Prop :=
  ∀ width, r.width = some width → BitWidth.Represents ⟨width.toNat, r.signed⟩ value

namespace Graph

variable {g : Graph} {n : Node} {r : Register} {id : Int} {name : String}

/-! ## The conditions -/

/-- A node makes sense by itself. -/
structure NodeLegal (g : Graph) (n : Node) : Prop where
  /-- Its operands are nodes. -/
  operands_known : ∀ o ∈ n.operands, o ∈ g.ids
  /-- It has as many operands as its kind asks for. -/
  arity : n.kind.minOperands ≤ n.operands.length ∧
    (n.kind ≠ .mux → n.operands.length = n.kind.minOperands)
  value_given : n.kind = .const → ∃ value, n.value = some value
  /-- A register that is read or written is declared. -/
  register_declared : n.kind.isRegister = true → ∃ r ∈ g.registers, n.register = some (.str r.name)
  /-- A declared range is not empty. -/
  bounds_ordered : ∀ lo hi, n.bounds = some (lo, hi) → lo ≤ hi

/-- A register makes sense by itself. -/
structure RegisterLegal (g : Graph) (r : Register) : Prop where
  single_write : (g.writes (.str r.name)).length ≤ 1
  width_pos : ∀ width, r.width = some width → 1 ≤ width
  /-- It can hold its initial value. -/
  init_held : r.Holds r.init

/-- All nodes and registers make sense by themselves. -/
structure WellFormed (g : Graph) : Prop where
  node : ∀ n ∈ g.nodes, g.NodeLegal n
  register : ∀ r ∈ g.registers, g.RegisterLegal r

/-- A node depends on another, which is its operand or writes the register that it reads. -/
inductive Depends (g : Graph) : Int → Int → Prop
  /-- On an operand. -/
  | operand {id o : Int} : o ∈ g.operands id → Depends g id o
  /-- On the write of a register. -/
  | register {name : String} {read write : Int} :
    read ∈ g.reads (.str name) → write ∈ g.writes (.str name) → Depends g read write

/-- A walk along dependencies that ends where it starts. -/
structure ClosedWalk (g : Graph) (walk : List Int) : Prop where
  /-- Each node depends on the next. -/
  linked : walk.IsChain g.Depends
  closed : walk.head? = walk.getLast?

/-- A walk goes from a read to a write of a register. -/
def PassesThrough (g : Graph) (walk : List Int) (name : String) : Prop :=
  ∃ read ∈ g.reads (.str name), ∃ write ∈ g.writes (.str name), [read, write] <:+: walk

/-- A graph is legal. -/
structure Legal (g : Graph) : Prop extends WellFormed g where
  /-- No node depends on itself through operands. -/
  acyclic : g.Acyclic
  /-- No closed walk passes through two registers. -/
  untangled : ∀ walk, g.ClosedWalk walk →
    ∀ first second, g.PassesThrough walk first → g.PassesThrough walk second → first = second

/-! ## Nodes and registers by themselves -/

private theorem accepts_iff (kind : Kind) (count : Nat) : kind.accepts count = true ↔
    kind.minOperands ≤ count ∧ (kind ≠ .mux → count = kind.minOperands) := by
  rw [Kind.accepts, Bool.and_eq_true, decide_eq_true_eq]
  refine and_congr_right fun hleast ↦ ?_
  by_cases hmux : kind = .mux
  · simp [hmux, Kind.maxOperands]
  · have hmax : kind.maxOperands = some kind.minOperands := by
      cases kind with
      | mux => exact absurd rfl hmux
      | _ => rfl
    simp only [hmax, Option.all_some, decide_eq_true_eq]
    exact ⟨fun h _ ↦ by omega, fun h ↦ (h hmux).le⟩

/-- A check that reports a fault finds none when its condition fails and the next check finds
none. -/
private theorem ite_some_eq_none {α : Type} {c : Prop} [Decidable c] {a : α} {rest : Option α} :
    (if c then some a else rest) = none ↔ ¬ c ∧ rest = none := by
  by_cases hc : c <;> simp [hc]

private theorem declared_iff (hg : g.Coherent) : (n.registerName?.bind g.register?).isNone = false ↔
    ∃ r ∈ g.registers, n.register = some (.str r.name) := by
  rw [Option.isNone_eq_false_iff, Option.isSome_iff_exists]
  simp only [Option.bind_eq_some_iff, Node.registerName?_eq_some, hg.register?_eq_some_iff]
  constructor
  · rintro ⟨r, name, hn, hr, rfl⟩
    exact ⟨r, hr, hn⟩
  · rintro ⟨r, hr, hn⟩
    exact ⟨r, r.name, hn, hr, rfl⟩

theorem nodeFault_eq_none_iff (hg : g.Coherent) : g.nodeFault n = none ↔ g.NodeLegal n := by
  have hknown : n.operands.find? (!g.contains ·) = none ↔ ∀ o ∈ n.operands, o ∈ g.ids := by
    simp [← contains_iff]
  have hvalue : ¬ (decide (n.kind = .const) && n.value.isNone) = true ↔
      (n.kind = .const → ∃ value, n.value = some value) := by
    rw [← Option.isSome_iff_exists]
    cases n.value <;> simp
  have hregister : ¬ (n.kind.isRegister && (n.registerName?.bind g.register?).isNone) = true ↔
      (n.kind.isRegister = true → ∃ r ∈ g.registers, n.register = some (.str r.name)) := by
    rw [← declared_iff hg, Bool.and_eq_true, not_and, Bool.not_eq_true]
  have hlegal : g.NodeLegal n ↔ (∀ o ∈ n.operands, o ∈ g.ids) ∧
      (n.kind.minOperands ≤ n.operands.length ∧
        (n.kind ≠ .mux → n.operands.length = n.kind.minOperands)) ∧
      (n.kind = .const → ∃ value, n.value = some value) ∧
      (n.kind.isRegister = true → ∃ r ∈ g.registers, n.register = some (.str r.name)) ∧
      ∀ lo hi, n.bounds = some (lo, hi) → lo ≤ hi :=
    ⟨fun h ↦ ⟨h.operands_known, h.arity, h.value_given, h.register_declared, h.bounds_ordered⟩,
      fun ⟨h₁, h₂, h₃, h₄, h₅⟩ ↦ ⟨h₁, h₂, h₃, h₄, h₅⟩⟩
  rw [hlegal, ← hknown, ← accepts_iff, ← hvalue, ← hregister, nodeFault]
  cases n.operands.find? (!g.contains ·) with
  | some o => simp
  | none =>
    rw [ite_some_eq_none, ite_some_eq_none, ite_some_eq_none, Bool.not_eq_true', Bool.not_eq_false,
      eq_self, true_and]
    refine and_congr_right fun _ ↦ and_congr_right fun _ ↦ and_congr_right fun _ ↦ ?_
    cases n.bounds with
    | none => simp
    | some bounds =>
      obtain ⟨lo, hi⟩ := bounds
      simp only [ite_some_eq_none, Int.not_lt, Option.some.injEq, Prod.mk.injEq, and_true]
      exact ⟨fun h lo' hi' heq ↦ heq.1 ▸ heq.2 ▸ h, fun h ↦ h lo hi ⟨rfl, rfl⟩⟩

theorem registerFault_eq_none_iff : g.registerFault r = none ↔ g.RegisterLegal r := by
  have hsplit : g.RegisterLegal r ↔ ¬ 1 < (g.writes (.str r.name)).length ∧
      (∀ width, r.width = some width → 1 ≤ width) ∧ r.Holds r.init :=
    ⟨fun h ↦ ⟨Nat.not_lt.mpr h.single_write, h.width_pos, h.init_held⟩,
      fun ⟨h₁, h₂, h₃⟩ ↦ ⟨Nat.not_lt.mp h₁, h₂, h₃⟩⟩
  rw [hsplit, registerFault, ite_some_eq_none]
  refine and_congr_right fun _ ↦ ?_
  cases hwidth : r.width with
  | none => simp [Register.Holds, hwidth]
  | some width =>
    simp only [Option.some.injEq, forall_eq', ite_some_eq_none, Int.not_lt]
    refine and_congr_right fun hpos ↦ ?_
    obtain ⟨lo, hi, hrange, -⟩ := exists_bitRange hpos r.signed
    have hholds : r.Holds r.init ↔ lo ≤ r.init ∧ r.init ≤ hi := by
      rw [← represents_iff_of_bitRange hrange, Register.Holds, hwidth]
      simp
    rw [hrange, hholds]
    simp only [Bool.and_eq_true, decide_eq_true_eq]
    by_cases hinit : lo ≤ r.init ∧ r.init ≤ hi <;> simp [hinit]

/-! ## Dependencies -/

theorem Coherent.mem_ids_of_mem_reads (hg : g.Coherent) (h : id ∈ g.reads (.str name)) :
    id ∈ g.ids := by
  obtain ⟨n, hn, -, -, rfl⟩ := hg.mem_reads_iff.mp h
  exact mem_ids_of_mem_nodes hn

theorem Coherent.mem_ids_of_mem_writes (hg : g.Coherent) (h : id ∈ g.writes (.str name)) :
    id ∈ g.ids := by
  obtain ⟨n, hn, -, -, rfl⟩ := hg.mem_writes_iff.mp h
  exact mem_ids_of_mem_nodes hn

theorem Coherent.exists_node_of_mem_reads_or_writes (hg : g.Coherent)
    (h : id ∈ g.reads (.str name) ∨ id ∈ g.writes (.str name)) :
    ∃ n ∈ g.nodes, n.kind.isRegister = true ∧ n.register = some (.str name) ∧ n.id = id := by
  rcases h with h | h
  · obtain ⟨n, hn, hkind, hregister, hid⟩ := hg.mem_reads_iff.mp h
    exact ⟨n, hn, by rw [hkind]; rfl, hregister, hid⟩
  · obtain ⟨n, hn, hkind, hregister, hid⟩ := hg.mem_writes_iff.mp h
    exact ⟨n, hn, by rw [hkind]; rfl, hregister, hid⟩

theorem exists_node_of_mem_dependencies {d : Int} (h : d ∈ g.dependencies id) :
    ∃ n ∈ g.nodes, n.id = id ∧ d ∈ g.nodeDependencies n := by
  rw [dependencies] at h
  cases hn : g.node? id with
  | none => simp [hn] at h
  | some n =>
    obtain ⟨hmem, hid⟩ := mem_nodes_of_node?_eq_some hn
    exact ⟨n, hmem, hid, by simpa [hn] using h⟩

namespace WellFormed

theorem operandsKnown (h : g.WellFormed) : g.OperandsKnown := fun n hn ↦
  (h.node n hn).operands_known

theorem exists_register_of_read (h : g.WellFormed) (hg : g.Coherent) (hn : n ∈ g.nodes)
    (hkind : n.kind = .regRead) :
    ∃ r ∈ g.registers, n.register = some (.str r.name) ∧ n.id ∈ g.reads (.str r.name) := by
  obtain ⟨r, hr, hregister⟩ := (h.node n hn).register_declared (by rw [hkind]; rfl)
  exact ⟨r, hr, hregister, hg.mem_reads_iff.mpr ⟨n, hn, hkind, hregister, rfl⟩⟩

theorem declared_of_mem (h : g.WellFormed) (hg : g.Coherent)
    (hid : id ∈ g.reads (.str name) ∨ id ∈ g.writes (.str name)) :
    ∃ r ∈ g.registers, r.name = name := by
  obtain ⟨n, hn, hkind, hregister, -⟩ := hg.exists_node_of_mem_reads_or_writes hid
  obtain ⟨r, hr, heq⟩ := (h.node n hn).register_declared hkind
  rw [hregister, Option.some_inj, Json.str.injEq] at heq
  exact ⟨r, hr, heq.symm⟩

theorem writes_eq (h : g.WellFormed) (hg : g.Coherent) (hid : id ∈ g.writes (.str name)) :
    g.writes (.str name) = [id] := by
  obtain ⟨r, hr, rfl⟩ := h.declared_of_mem hg (Or.inr hid)
  have hlength := (h.register r hr).single_write
  obtain ⟨write, hwrite⟩ := List.length_eq_one_iff.mp
    (le_antisymm hlength (List.length_pos_of_mem hid))
  rw [hwrite] at hid ⊢
  rw [List.mem_singleton.mp hid]

theorem write?_eq (h : g.WellFormed) (hg : g.Coherent) (hid : id ∈ g.writes (.str name)) :
    g.write? (.str name) = some id := by
  rw [write?, h.writes_eq hg hid]
  rfl

theorem mem_dependencies_iff (hg : g.Coherent) (h : g.WellFormed) {d : Int} :
    d ∈ g.dependencies id ↔ g.Depends id d := by
  constructor
  · intro hd
    obtain ⟨n, hmem, rfl, hlisted⟩ := exists_node_of_mem_dependencies hd
    rw [nodeDependencies, List.mem_append] at hlisted
    rcases hlisted with hd | hd
    · exact .operand (by rw [hg.operands_id hmem]; exact (List.mem_filter.mp hd).1)
    · by_cases hkind : n.kind = .regRead
      · obtain ⟨r, -, hregister, hread⟩ := h.exists_register_of_read hg hmem hkind
        rw [if_pos hkind, hregister, Option.bind_some, Option.mem_toList] at hd
        exact .register hread (mem_writes_of_write?_eq_some hd)
      · rw [if_neg hkind] at hd
        exact absurd hd List.not_mem_nil
  · intro hd
    cases hd with
    | operand ho =>
      obtain ⟨n, hn, rfl, ho'⟩ := exists_node_of_mem_operands ho
      rw [hg.dependencies_id hn, nodeDependencies]
      exact List.mem_append_left _ (List.mem_filter.mpr
        ⟨ho', contains_iff.mpr (h.operandsKnown n hn d ho')⟩)
    | register hread hwrite =>
      obtain ⟨n, hn, hkind, hregister, rfl⟩ := hg.mem_reads_iff.mp hread
      rw [hg.dependencies_id hn, nodeDependencies, if_pos hkind, hregister, Option.bind_some,
        h.write?_eq hg hwrite]
      exact List.mem_append_right _ (by simp)

/-- A read depends on nothing but the write of its register. -/
theorem operands_read (hg : g.Coherent) (h : g.WellFormed) (hid : id ∈ g.reads (.str name)) :
    g.operands id = [] := by
  obtain ⟨n, hn, hkind, -, rfl⟩ := hg.mem_reads_iff.mp hid
  have harity := (h.node n hn).arity.2 (by rw [hkind]; decide)
  rw [hg.operands_id hn, ← List.length_eq_zero_iff, harity, hkind]
  rfl

end WellFormed

theorem Legal.mem_readyOrder (hg : g.Coherent) (h : g.Legal) (hid : id ∈ g.ids) :
    id ∈ g.readyOrder :=
  (mem_readyOrder_iff_acyclic hg h.operandsKnown).mpr h.acyclic id hid

theorem mem_ids_of_mem_dependencies (hg : g.Coherent) {d : Int} (h : d ∈ g.dependencies id) :
    d ∈ g.ids := by
  obtain ⟨n, -, -, h⟩ := exists_node_of_mem_dependencies h
  rw [nodeDependencies, List.mem_append] at h
  rcases h with h | h
  · exact contains_iff.mp (List.mem_filter.mp h).2
  · split at h
    case isTrue =>
      rw [Option.mem_toList, Option.bind_eq_some_iff] at h
      obtain ⟨register, -, hwrite⟩ := h
      have hmem := List.mem_of_head? hwrite
      rw [writes, hg.index_eq] at hmem
      exact Index.mem_ids_of_mem_writes hmem
    case isFalse => exact absurd h List.not_mem_nil

theorem dependencies_decompose (hg : g.Coherent) :
    Digraph.Decomposes g.dependencies g.ids g.dependencyComponents := by
  refine Digraph.components_decompose (U := g.ids.toFinset) ?_ ?_ ?_
  · exact fun _ _ w hw ↦ List.mem_toFinset.mpr (mem_ids_of_mem_dependencies hg hw)
  · exact fun v hv ↦ List.mem_toFinset.mpr hv
  · have hcard := List.toFinset_card_le g.ids
    rwa [ids, List.length_map] at hcard

theorem mem_ids_of_mem_component (hg : g.Coherent) {c : List Int} (hc : c ∈ g.dependencyComponents)
    (hid : id ∈ c) : id ∈ g.ids := by
  obtain ⟨v, hv, hreach⟩ := ((dependencies_decompose hg).mem_iff id).mp
    (List.mem_flatten.mpr ⟨c, hc, hid⟩)
  rcases hreach.cases_tail with rfl | ⟨u, -, hu⟩
  · exact hv
  · exact mem_ids_of_mem_dependencies hg hu

theorem mem_flatten_dependencyComponents_iff (hg : g.Coherent) :
    id ∈ g.dependencyComponents.flatten ↔ id ∈ g.ids := by
  constructor
  · intro hid
    obtain ⟨c, hc, hidc⟩ := List.mem_flatten.mp hid
    exact mem_ids_of_mem_component hg hc hidc
  · intro hid
    exact List.mem_flatten.mpr ((dependencies_decompose hg).exists_mem hid)

end Graph

end Datapath
