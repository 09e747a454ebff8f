import Datapath.Assessment
import Datapath.Proofs.Digraph.Shortest
import Datapath.Proofs.Graph.Feedback

/-!
# Validation

Validation succeeds exactly for the legal graphs, and it then knows their layout. If it fails, it
says why, and the faults that would mean that the search for a cycle came up empty never occur.

## Machines

Validation calculates the range of every register that declares a width. A range beyond the memory
of the machine ends it with a mishap, for a legal graph as well. A fault that is found is put into
words, and becomes a mishap if an integer of the graph has too many digits for that.
-/

namespace Datapath

/-- A failure that has a fault to show is reported as it is, unless it shows an integer that cannot
be put into words. -/
theorem Failure.raised_cases {m : Machine} {f : Failure} {shown : List Json} {fault : Fault}
    (h : f.fault m = m.fault shown fault) :
    f.raised m = f ∨ f.raised m = .mishap (.tooLongToWrite m.digits) ∧
      ∃ v ∈ shown, ∃ k ∈ v.integers, m.writes k = false := by
  rw [raised, h, Machine.fault]
  split_ifs with hall
  · exact Or.inl rfl
  · exact Or.inr ⟨rfl, by simpa using hall⟩

namespace Graph

open Relation

variable {g : Graph} {layout : Layout} {m : Machine}

/-! ## The layout -/

/-- What the layout of a legal graph consists of. -/
structure Arranges (g : Graph) (layout : Layout) : Prop where
  /-- The nodes in the order in which they become ready. -/
  order : layout.order = g.readyOrder
  components : layout.components = g.dependencyComponents
  /-- Each loop belongs to a component. -/
  isLoopOf : ∀ loop ∈ layout.loops, ∃ c ∈ g.dependencyComponents, g.IsLoopOf c loop
  /-- Each component of several nodes has a loop. -/
  exists_loop : ∀ c ∈ g.dependencyComponents, c.length ≠ 1 →
    ∃ loop ∈ layout.loops, g.IsLoopOf c loop

theorem legal_of_arrange (hg : g.Coherent) (h : g.WellFormed) (harrange : g.arrange = .ok layout) :
    g.Legal ∧ g.Arranges layout := by
  obtain ⟨order, horder, hrest⟩ := Outcome.bind_eq_ok.mp harrange
  obtain ⟨loops, hloops, hlayout⟩ := Outcome.bind_eq_ok.mp hrest
  obtain ⟨found, hfound, rfl⟩ := Outcome.map_eq_ok.mp hloops
  obtain ⟨hacyclic, rfl⟩ := acyclic_of_operandOrder hg h.operandsKnown horder
  have hcases : ∀ c ∈ g.dependencyComponents,
      (c.length = 1 ∧ g.feedbackLoop g.readyOrder c = .ok none) ∨
      (c.length ≠ 1 ∧ ∃ loop, g.IsLoopOf c loop ∧
        g.feedbackLoop g.readyOrder c = .ok (some loop)) := by
    intro c hc
    rcases feedbackLoop_cases hg h hacyclic hc with hone | hloop | ⟨_, _, _, -, herror⟩
    · exact Or.inl hone
    · exact Or.inr hloop
    · obtain ⟨found?, hok⟩ := Outcome.exists_of_mapM_eq_ok hfound hc
      rw [herror] at hok
      cases hok
  cases hlayout
  refine ⟨⟨h, hacyclic, (untangled_iff hg h).mpr fun c hc ↦ ?_⟩, rfl, rfl, ?_, ?_⟩
  · rcases hcases c hc with ⟨hone, -⟩ | ⟨-, loop, hloop, -⟩
    · simp [closingRegisters_of_length_eq_one hg hone]
    · simp [hloop.closing]
  · intro loop hloop
    obtain ⟨found?, hmem, heq⟩ := List.mem_filterMap.mp hloop
    obtain ⟨c, hc, hok⟩ := (Outcome.mem_iff_of_mapM_eq_ok hfound).mp hmem
    rcases hcases c hc with ⟨-, hnone⟩ | ⟨-, loop', hloop', hsome⟩
    · rw [hok] at hnone
      cases hnone
      cases heq
    · rw [hok] at hsome
      cases hsome
      cases heq
      exact ⟨c, hc, hloop'⟩
  · intro c hc hlength
    rcases hcases c hc with ⟨hone, -⟩ | ⟨-, loop, hloop, hsome⟩
    · exact absurd hone hlength
    · exact ⟨loop, List.mem_filterMap.mpr
        ⟨some loop, (Outcome.mem_iff_of_mapM_eq_ok hfound).mpr ⟨c, hc, hsome⟩, rfl⟩, hloop⟩

/-- A fault of the graph as a whole, as validation shows it. -/
inductive Shown (g : Graph) : Malformed → Prop
  /-- A cycle of operands has been found. -/
  | cycle {component cycle : List Int} :
    Digraph.shortestCycle (component.length + 1)
      (fun id ↦ (g.operands id).filter (component.contains ·)) (least component) = some cycle →
    Shown g (.combinationalCycle (cycle.map fun id ↦ (id, g.kindOf id)))
  /-- A walk through two registers has been found. -/
  | tangle {component chain : List Int} {first second : String × Int}
      {rest : List (String × Int)} :
    g.closingRegisters component = first :: second :: rest →
    g.Tangled component first second chain →
    Shown g (.tangled ((first :: second :: rest).map (·.1)) chain)

/-- Arranging a graph of sensible nodes and registers fails at the order of operations or at a
component. -/
theorem arrange_eq_error (hg : g.Coherent) (h : g.WellFormed) {fault : Malformed}
    (harrange : g.arrange = .error fault) :
    g.operandOrder = .error fault ∨ g.Acyclic ∧
      ∃ c ∈ g.dependencyComponents, g.feedbackLoop g.readyOrder c = .error fault := by
  rcases Outcome.bind_eq_error.mp harrange with horder | ⟨order, horder, hrest⟩
  · exact Or.inl horder
  · right
    obtain ⟨hacyclic, rfl⟩ := acyclic_of_operandOrder hg h.operandsKnown horder
    rcases Outcome.bind_eq_error.mp hrest with hloops | ⟨loops, -, hreturn⟩
    · exact ⟨hacyclic, Outcome.exists_of_mapM_eq_error (Outcome.map_eq_error.mp hloops)⟩
    · cases hreturn

/-- A graph of sensible nodes and registers that cannot be arranged is not legal, and shows a
fault. -/
theorem shown_of_arrange (hg : g.Coherent) (h : g.WellFormed) {fault : Malformed}
    (harrange : g.arrange = .error fault) : g.Shown fault ∧ ¬ g.Legal := by
  rcases arrange_eq_error hg h harrange with horder | ⟨hacyclic, c, hc, hloop⟩
  · obtain ⟨component, cycle, -, hcycle, rfl⟩ := operandOrder_error hg h.operandsKnown horder
    refine ⟨.cycle hcycle, fun hlegal ↦ ?_⟩
    rw [operandOrder_of_acyclic hg h.operandsKnown hlegal.acyclic] at horder
    cases horder
  · obtain ⟨first, second, rest, hclosing, rfl⟩ := tangled_of_feedbackLoop hg h hacyclic hc hloop
    have hmem : first ∈ g.closingRegisters c ∧ second ∈ g.closingRegisters c := by
      simp [hclosing]
    refine ⟨.tangle hclosing (tangled_tangle hg h hc hmem.1 hmem.2), fun hlegal ↦ ?_⟩
    have hlength := (untangled_iff hg h).mp hlegal.untangled c hc
    rw [hclosing, List.length_cons, List.length_cons] at hlength
    omega

/-- The checks of single nodes and registers come first. -/
theorem computeLayout_cases (hg : g.Coherent) :
    (∃ n ∈ g.nodes, ∃ fault, g.nodeFault n = some fault ∧ g.computeLayout = .error fault) ∨
    (∃ r ∈ g.registers, ∃ fault, g.registerFault r = some fault ∧
      g.computeLayout = .error fault) ∨
    (g.WellFormed ∧ g.computeLayout = g.arrange) := by
  cases hnodes : g.nodes.findSome? g.nodeFault with
  | some fault =>
    obtain ⟨n, hn, hfault⟩ := List.exists_of_findSome?_eq_some hnodes
    exact Or.inl ⟨n, hn, fault, hfault, by rw [computeLayout, partFault?, hnodes]⟩
  | none =>
    right
    cases hregisters : g.registers.findSome? g.registerFault with
    | some fault =>
      obtain ⟨r, hr, hfault⟩ := List.exists_of_findSome?_eq_some hregisters
      exact Or.inl ⟨r, hr, fault, hfault, by rw [computeLayout, partFault?, hnodes, hregisters]⟩
    | none =>
      rw [List.findSome?_eq_none_iff] at hnodes hregisters
      refine Or.inr ⟨⟨fun n hn ↦ (nodeFault_eq_none_iff hg).mp (hnodes n hn),
        fun r hr ↦ registerFault_eq_none_iff.mp (hregisters r hr)⟩, ?_⟩
      rw [computeLayout, partFault?, List.findSome?_eq_none_iff.mpr hnodes,
        List.findSome?_eq_none_iff.mpr hregisters]

theorem arrange_of_computeLayout (hg : g.Coherent) (h : g.computeLayout = .ok layout) :
    g.WellFormed ∧ g.arrange = .ok layout := by
  rcases computeLayout_cases hg with ⟨n, -, fault, -, heq⟩ | ⟨r, -, fault, -, heq⟩ | ⟨hwell, heq⟩
  · rw [heq] at h
    cases h
  · rw [heq] at h
    cases h
  · exact ⟨hwell, heq ▸ h⟩

/-- A fault that neither a node nor a register has by itself comes from arranging the graph. -/
theorem arrange_of_validate (hg : g.Coherent) {fault : Malformed} (h : g.validate = .error fault)
    (hnode : ∀ n, g.nodeFault n ≠ some fault) (hregister : ∀ r, g.registerFault r ≠ some fault) :
    g.WellFormed ∧ g.arrange = .error fault := by
  rw [validate_eq_error, hg.layout_eq] at h
  rcases computeLayout_cases hg with
    ⟨n, -, found, hfound, heq⟩ | ⟨r, -, found, hfound, heq⟩ | ⟨hwell, heq⟩
  · rw [heq, Except.error.injEq] at h
    exact absurd (h ▸ hfound) (hnode n)
  · rw [heq, Except.error.injEq] at h
    exact absurd (h ▸ hfound) (hregister r)
  · exact ⟨hwell, heq ▸ h⟩

theorem legal_of_computeLayout (hg : g.Coherent) (h : g.computeLayout = .ok layout) :
    g.Legal ∧ g.Arranges layout := by
  obtain ⟨hwell, harrange⟩ := arrange_of_computeLayout hg h
  exact legal_of_arrange hg hwell harrange

/-- A fault that validation reports: of a node, of a register, or of the graph as a whole. -/
inductive Diagnosed (g : Graph) : Malformed → Prop
  | node {n : Node} {fault : Malformed} :
    n ∈ g.nodes → g.nodeFault n = some fault → Diagnosed g fault
  | register {r : Register} {fault : Malformed} :
    r ∈ g.registers → g.registerFault r = some fault → Diagnosed g fault
  /-- A fault of the graph as a whole. -/
  | shown {fault : Malformed} : g.Shown fault → Diagnosed g fault

theorem diagnosed_of_computeLayout (hg : g.Coherent) {fault : Malformed}
    (h : g.computeLayout = .error fault) : g.Diagnosed fault ∧ ¬ g.Legal := by
  rcases computeLayout_cases hg with
    ⟨n, hn, fault', hfault, heq⟩ | ⟨r, hr, fault', hfault, heq⟩ | ⟨hwell, heq⟩
  · rw [heq] at h
    cases h
    refine ⟨.node hn hfault, fun hlegal ↦ ?_⟩
    rw [(nodeFault_eq_none_iff hg).mpr (hlegal.node n hn)] at hfault
    cases hfault
  · rw [heq] at h
    cases h
    refine ⟨.register hr hfault, fun hlegal ↦ ?_⟩
    rw [registerFault_eq_none_iff.mpr (hlegal.register r hr)] at hfault
    cases hfault
  · rw [heq] at h
    obtain ⟨hshown, hillegal⟩ := shown_of_arrange hg hwell h
    exact ⟨.shown hshown, hillegal⟩

/-- No fault says that a cycle was looked for in vain. -/
theorem Diagnosed.ne {fault : Malformed} (h : g.Diagnosed fault) :
    (∀ stuck, fault ≠ .notAcyclic stuck) ∧ ∀ chain, fault ≠ .notClosed chain := by
  cases h with
  | node _ hfault => grind [nodeFault]
  | register _ hfault => grind [registerFault]
  | shown hshown => cases hshown <;> simp

/-! ## Sizes -/

/-- The range of one of some registers cannot be calculated, it has at most one write, and the
registers before it make sense. -/
def Exhausts (m : Machine) (g : Graph) (registers : List Register) (mishap : Mishap) : Prop :=
  ∃ before r after, registers = before ++ r :: after ∧
    (∀ x ∈ before, g.RegisterLegal x ∧ x.mishap? m = none) ∧
    (g.writes (.str r.name)).length ≤ 1 ∧ r.mishap? m = some mishap

theorem exhausts_cons_iff {r : Register} {rest : List Register} {mishap : Mishap} :
    g.Exhausts m (r :: rest) mishap ↔
      ((g.writes (.str r.name)).length ≤ 1 ∧ r.mishap? m = some mishap) ∨
      (g.RegisterLegal r ∧ r.mishap? m = none ∧ g.Exhausts m rest mishap) := by
  rw [Exhausts, Exhausts]
  constructor
  · rintro ⟨before, x, after, heq, hbefore, hwrites, hx⟩
    cases before with
    | nil =>
      cases heq
      exact Or.inl ⟨hwrites, hx⟩
    | cons y before =>
      cases heq
      obtain ⟨hlegal, hnone⟩ := hbefore r List.mem_cons_self
      exact Or.inr ⟨hlegal, hnone, before, x, after, rfl,
        fun z hz ↦ hbefore z (List.mem_cons_of_mem _ hz), hwrites, hx⟩
  · rintro (⟨hwrites, hr⟩ | ⟨hlegal, hnone, before, x, after, rfl, hbefore, hwrites, hx⟩)
    · exact ⟨[], r, rest, rfl, by simp, hwrites, hr⟩
    · exact ⟨r :: before, x, after, rfl, by simpa using ⟨⟨hlegal, hnone⟩, hbefore⟩, hwrites, hx⟩

private theorem sizeMishapIn_eq_some_iff {registers : List Register} {mishap : Mishap} :
    g.sizeMishapIn m registers = some mishap ↔ g.Exhausts m registers mishap := by
  induction registers with
  | nil => simp [sizeMishapIn, Exhausts]
  | cons r rest ih =>
    rw [sizeMishapIn, exhausts_cons_iff, ← ih]
    cases hr : r.mishap? m with
    | some found =>
      simp only [Option.ite_none_left_eq_some, Nat.not_lt, reduceCtorEq, false_and, and_false,
        or_false]
    | none =>
      simp only [reduceCtorEq, and_false, false_or, true_and]
      split
      case isTrue hfault =>
        have hillegal : ¬ g.RegisterLegal r := by
          rw [← registerFault_eq_none_iff]
          exact Option.isSome_iff_ne_none.mp hfault
        simp [hillegal]
      case isFalse hfault =>
        have hlegal : g.RegisterLegal r := by
          rwa [← registerFault_eq_none_iff, ← Option.not_isSome_iff_eq_none]
        simp [hlegal]

theorem sizeMishap?_eq_some_iff (hg : g.Coherent) {mishap : Mishap} :
    g.sizeMishap? m = some mishap ↔
      (∀ n ∈ g.nodes, g.NodeLegal n) ∧ g.Exhausts m g.registers mishap := by
  have hnodes : ¬ (g.nodes.findSome? g.nodeFault).isSome = true ↔ ∀ n ∈ g.nodes, g.NodeLegal n := by
    rw [Option.not_isSome_iff_eq_none, List.findSome?_eq_none_iff]
    exact forall₂_congr fun n _ ↦ nodeFault_eq_none_iff hg
  rw [sizeMishap?, ← hnodes, ← sizeMishapIn_eq_some_iff]
  split
  case isTrue h => simp [h]
  case isFalse h => simp [h]

private theorem forall_not_exhausts_iff {registers : List Register}
    (h : ∀ r ∈ registers, g.RegisterLegal r) :
    (∀ mishap, ¬ g.Exhausts m registers mishap) ↔ ∀ r ∈ registers, r.mishap? m = none := by
  induction registers with
  | nil => simp [Exhausts]
  | cons r rest ih =>
    have hr := h r List.mem_cons_self
    rw [List.forall_mem_cons, ← ih fun x hx ↦ h x (List.mem_cons_of_mem _ hx)]
    simp only [exhausts_cons_iff, hr.single_write, hr, true_and, not_or, not_and, forall_and]
    rw [← Option.eq_none_iff_forall_ne_some]
    exact and_congr_right fun hnone ↦ forall_congr' fun mishap ↦ forall_prop_of_true hnone

/-- A legal graph comes to a mishap at a register whose range cannot be calculated, and nowhere
else. -/
theorem sizeMishap?_eq_none_iff (hg : g.Coherent) (h : g.Legal) :
    g.sizeMishap? m = none ↔ ∀ r ∈ g.registers, r.mishap? m = none := by
  rw [← forall_not_exhausts_iff h.register, Option.eq_none_iff_forall_ne_some]
  refine forall_congr' fun mishap ↦ not_congr ?_
  rw [sizeMishap?_eq_some_iff hg, and_iff_right h.node]

/-! ## Wording -/

/-- The integers that a node is made of. -/
def nodeIntegers (n : Node) : List Int :=
  n.id :: n.operands ++ (n.bounds.elim [] fun range ↦ [range.1, range.2]) ++
    n.register.elim [] Json.integers

/-- The integers that a register is made of. -/
def registerIntegers (r : Register) : List Int := r.init :: r.width.toList

/-- The integers that a graph is made of, apart from its literals. -/
def integers (g : Graph) : List Int :=
  g.nodes.flatMap nodeIntegers ++ g.registers.flatMap registerIntegers

/-- A fault shows integers from a list. -/
def ShowsOnly (ns : List Int) (fault : Malformed) : Prop :=
  ∀ v ∈ fault.values .int, ∀ k ∈ v.integers, k ∈ ns

theorem ShowsOnly.mono {ns ns' : List Int} {fault : Malformed} (h : ShowsOnly ns fault)
    (hsub : ns ⊆ ns') : ShowsOnly ns' fault :=
  fun v hv k hk ↦ hsub (h v hv k hk)

private theorem showsOnly_of_nodeFault {n : Node} {fault : Malformed}
    (h : g.nodeFault n = some fault) : ShowsOnly (nodeIntegers n) fault := by
  have hid : n.id ∈ nodeIntegers n := by simp [nodeIntegers]
  rw [nodeFault] at h
  split at h
  case h_1 operand hoperand =>
    cases h
    have hmem := List.mem_of_find?_eq_some hoperand
    simp [ShowsOnly, MalformedOf.values, Json.integers, nodeIntegers, hmem]
  case h_2 =>
    split_ifs at h
    · cases h
      simpa [ShowsOnly, MalformedOf.values, Json.integers] using hid
    · cases h
      simpa [ShowsOnly, MalformedOf.values, Json.integers] using hid
    · cases h
      cases hregister : n.register <;>
        simp_all [ShowsOnly, MalformedOf.values, Json.integers, nodeIntegers]
    · split at h
      case h_1 lo hi hbounds =>
        split_ifs at h
        cases h
        simp [ShowsOnly, MalformedOf.values, Json.integers, nodeIntegers, hbounds]
      case h_2 => cases h

private theorem showsOnly_of_registerFault {r : Register} {fault : Malformed}
    (h : g.registerFault r = some fault) :
    ShowsOnly (g.writes (.str r.name) ++ registerIntegers r) fault := by
  rw [registerFault] at h
  split_ifs at h
  · cases h
    simp +contextual [ShowsOnly, MalformedOf.values, Json.integers]
  · split at h
    case h_1 => cases h
    case h_2 width hwidth =>
      have hmem : width ∈ registerIntegers r := by simp [registerIntegers, hwidth]
      split_ifs at h
      · cases h
        simp [ShowsOnly, MalformedOf.values, Json.integers, hmem]
      · split at h
        case h_1 lo hi _ =>
          split_ifs at h
          cases h
          simp [ShowsOnly, MalformedOf.values, Json.integers, registerIntegers, hwidth]
        case h_2 =>
          cases h
          simp [ShowsOnly, MalformedOf.values, Json.integers, hmem]

theorem mem_integers_of_mem_ids {id : Int} (h : id ∈ g.ids) : id ∈ g.integers := by
  obtain ⟨n, hn, rfl⟩ := List.mem_map.mp h
  exact List.mem_append_left _ (List.mem_flatMap.mpr ⟨n, hn, by simp [nodeIntegers]⟩)

private theorem mem_integers_of_mem_operands {id o : Int} (h : o ∈ g.operands id) :
    o ∈ g.integers := by
  obtain ⟨n, hn, -, ho⟩ := exists_node_of_mem_operands h
  exact List.mem_append_left _ (List.mem_flatMap.mpr ⟨n, hn, by simp [nodeIntegers, ho]⟩)

private theorem mem_ids_of_shortestPath (hg : g.Coherent) (h : g.WellFormed) {c path : List Int}
    {source target : Int} {fuel : Nat} (hsource : source ∈ g.ids)
    (hpath : Digraph.shortestPath fuel (fun id ↦ (g.flow id).filter (c.contains ·)) source target =
      some path) : ∀ x ∈ path, x ∈ g.ids := by
  intro x hx
  obtain ⟨hlinked, hfirst, -⟩ := Digraph.shortestPath_eq_some hpath
  rcases Digraph.exists_of_mem_chain hlinked hfirst hx with rfl | ⟨y, hy⟩
  · exact hsource
  · cases (h.mem_flow_iff hg).mp (List.mem_filter.mp hy).1 with
    | operand ho =>
      obtain ⟨n, hn, rfl, -⟩ := exists_node_of_mem_operands ho
      exact mem_ids_of_mem_nodes hn
    | register hread _ => exact hg.mem_ids_of_mem_reads hread

/-- A fault of the graph as a whole shows nodes of the graph. -/
theorem Shown.showsOnly (hg : g.Coherent) (hwell : g.WellFormed) {fault : Malformed}
    (h : g.Shown fault) : ShowsOnly g.integers fault := by
  cases h with
  | cycle hcycle =>
    have hmem : ∀ x ∈ _, x ∈ g.integers := fun x hx ↦ by
      obtain ⟨y, hy⟩ := (Digraph.shortestCycle_eq_some hcycle).1.exists_of_mem hx
      exact mem_integers_of_mem_operands (List.mem_filter.mp hy).1
    simpa [ShowsOnly, MalformedOf.values, Json.integers] using hmem
  | @tangle c chain first second rest _ htangled =>
    obtain ⟨read₁, read₂, path₁, path₂, hread₁, hread₂, hpath₁, hpath₂, rfl⟩ := htangled
    have hid₁ := hg.mem_ids_of_mem_reads (List.mem_of_find?_eq_some hread₁)
    have hid₂ := hg.mem_ids_of_mem_reads (List.mem_of_find?_eq_some hread₂)
    have hmem : ∀ x ∈ path₁ ++ path₂ ++ [read₁], x ∈ g.integers := by
      intro x hx
      rw [List.mem_append, List.mem_append, List.mem_singleton] at hx
      rcases hx with (hx | hx) | rfl
      · exact mem_integers_of_mem_ids (mem_ids_of_shortestPath hg hwell hid₁ hpath₁ x hx)
      · exact mem_integers_of_mem_ids (mem_ids_of_shortestPath hg hwell hid₂ hpath₂ x hx)
      · exact mem_integers_of_mem_ids hid₁
    intro v hv k hk
    obtain ⟨x, hx, rfl⟩ := List.mem_map.mp hv
    rw [List.mem_singleton.mp hk]
    exact hmem x hx

/-- What validation has to say shows integers of the graph only. -/
theorem showsOnly_of_computeLayout (hg : g.Coherent) {fault : Malformed}
    (h : g.computeLayout = .error fault) : ShowsOnly g.integers fault := by
  rcases computeLayout_cases hg with
    ⟨n, hn, found, hfound, heq⟩ | ⟨r, hr, found, hfound, heq⟩ | ⟨hwell, heq⟩
  · obtain rfl : found = fault := Except.error.inj (heq.symm.trans h)
    refine (showsOnly_of_nodeFault hfound).mono fun k hk ↦ ?_
    exact List.mem_append_left _ (List.mem_flatMap.mpr ⟨n, hn, hk⟩)
  · obtain rfl : found = fault := Except.error.inj (heq.symm.trans h)
    refine (showsOnly_of_registerFault hfound).mono fun k hk ↦ ?_
    rcases List.mem_append.mp hk with hk | hk
    · exact mem_integers_of_mem_ids (hg.mem_ids_of_mem_writes hk)
    · exact List.mem_append_right _ (List.mem_flatMap.mpr ⟨r, hr, hk⟩)
  · exact (shown_of_arrange hg hwell (heq.symm.trans h)).1.showsOnly hg hwell

/-! ## Validation -/

theorem exists_validate_iff (hg : g.Coherent) : (∃ g', g.validate = .ok g') ↔ g.Legal := by
  have hlayout : g.validate.map kept = g.computeLayout := hg.layout_eq
  cases hcompute : g.computeLayout with
  | ok layout =>
    obtain ⟨g', hg', -⟩ := Outcome.map_eq_ok.mp (hlayout.trans hcompute)
    exact ⟨fun _ ↦ (legal_of_computeLayout hg hcompute).1, fun _ ↦ ⟨g', hg'⟩⟩
  | error fault =>
    have herror := Outcome.map_eq_error.mp (hlayout.trans hcompute)
    simp [herror, (diagnosed_of_computeLayout hg hcompute).2]

theorem checked_eq_ok_iff {g' : Graph} :
    g.checked m = .ok g' ↔ g.sizeMishap? m = none ∧ g.validate = .ok g' := by
  rw [checked]
  cases g.sizeMishap? m <;> simp [Outcome.mapError_eq_ok]

theorem exists_checked_iff (hg : g.Coherent) (m : Machine) :
    (∃ g', g.checked m = .ok g') ↔ g.Legal ∧ ∀ r ∈ g.registers, r.mishap? m = none := by
  constructor
  · rintro ⟨g', hg'⟩
    obtain ⟨hsize, hvalidate⟩ := checked_eq_ok_iff.mp hg'
    have hlegal := (exists_validate_iff hg).mp ⟨g', hvalidate⟩
    exact ⟨hlegal, (sizeMishap?_eq_none_iff hg hlegal).mp hsize⟩
  · rintro ⟨hlegal, hnone⟩
    obtain ⟨g', hg'⟩ := (exists_validate_iff hg).mpr hlegal
    exact ⟨g', checked_eq_ok_iff.mpr ⟨(sizeMishap?_eq_none_iff hg hlegal).mpr hnone, hg'⟩⟩

theorem checked_eq_mishap_iff (hg : g.Coherent) {mishap : Mishap} :
    g.checked m = .error (.mishap mishap) ↔
      (∀ n ∈ g.nodes, g.NodeLegal n) ∧ g.Exhausts m g.registers mishap := by
  rw [← sizeMishap?_eq_some_iff hg, checked]
  cases g.sizeMishap? m with
  | some found => simp
  | none => cases g.validate <;> simp [Except.mapError]

/-- Validation on a machine fails because of a fault, or it comes to a mishap. -/
theorem checked_eq_error (hg : g.Coherent) {failure : Failure}
    (h : g.checked m = .error failure) :
    (∃ fault, failure = .malformed fault ∧ g.computeLayout = .error fault) ∨
      ∃ mishap, failure = .mishap mishap := by
  rw [checked] at h
  cases hsize : g.sizeMishap? m with
  | some mishap =>
    rw [hsize] at h
    exact Or.inr ⟨mishap, (Except.error.inj h).symm⟩
  | none =>
    rw [hsize, Outcome.mapError_eq_error] at h
    obtain ⟨fault, hfault, rfl⟩ := h
    rw [validate_eq_error, hg.layout_eq] at hfault
    exact Or.inl ⟨fault, rfl, hfault⟩

theorem raised_malformed (hg : g.Coherent) {fault : Malformed}
    (h : g.computeLayout = .error fault) :
    (Failure.malformed fault).raised m = .malformed fault ∨
      (Failure.malformed fault).raised m = .mishap (.tooLongToWrite m.digits) ∧
        ∃ k ∈ g.integers, m.writes k = false := by
  refine (Failure.raised_cases rfl).imp_right (And.imp_right ?_)
  rintro ⟨v, hv, k, hk, hwrites⟩
  exact ⟨k, showsOnly_of_computeLayout hg h v hv k hk, hwrites⟩

/-- **Validation accepts the legal graphs**, as long as the machine can calculate the ranges of
their registers. In every other case it names a fault of a node, of a register or of the graph as a
whole, or it comes to a mishap; it never looks for a cycle in vain. A fault is reported as such,
unless it shows an integer of the graph that cannot be put into words. -/
theorem checked_iff_legal (h : g.Built) (m : Machine) :
    ((∃ g', g.checked m = .ok g') ↔ g.Legal ∧ ∀ r ∈ g.registers, r.mishap? m = none) ∧
    (∀ failure, g.checked m = .error failure →
      (∃ fault, failure = .malformed fault ∧ ¬ g.Legal ∧ g.Diagnosed fault ∧
        (∀ stuck, fault ≠ .notAcyclic stuck) ∧ ∀ chain, fault ≠ .notClosed chain) ∨
      ∃ mishap, failure = .mishap mishap) ∧
    (∀ mishap, g.checked m = .error (.mishap mishap) ↔
      (∀ n ∈ g.nodes, g.NodeLegal n) ∧ g.Exhausts m g.registers mishap) ∧
    ∀ fault, g.checked m = .error (.malformed fault) →
      (Failure.malformed fault).raised m = .malformed fault ∨
        (Failure.malformed fault).raised m = .mishap (.tooLongToWrite m.digits) ∧
          ∃ k ∈ g.integers, m.writes k = false := by
  have hg := h.coherent
  refine ⟨exists_checked_iff hg m, ?_, fun mishap ↦ checked_eq_mishap_iff hg, ?_⟩
  · intro failure hfailure
    refine (checked_eq_error hg hfailure).imp_left ?_
    rintro ⟨fault, rfl, hfault⟩
    obtain ⟨hdiagnosed, hillegal⟩ := diagnosed_of_computeLayout hg hfault
    exact ⟨fault, rfl, hillegal, hdiagnosed, hdiagnosed.ne⟩
  · intro fault hfailure
    rcases checked_eq_error hg hfailure with ⟨_, heq, hfault⟩ | ⟨mishap, heq⟩
    · cases heq
      exact raised_malformed hg hfault
    · cases heq

theorem legal_counter : (∃ g', counter.checked .roomy = .ok g') ∧ counter.Legal := by
  have hchecked := Outcome.exists_of_isOk
    (show (counter.checked .roomy).isOk = true by decide +kernel)
  exact ⟨hchecked, ((checked_iff_legal counter_built .roomy).1.mp hchecked).1⟩

/-- A register with more bits than can be counted. -/
def wide : Graph := .ofParts [] [⟨"r", 0, some (10 ^ 25), false⟩]

theorem wide_built : wide.Built := built_of_nodup (by decide) (by decide)

theorem wide_legal : wide.Legal := by
  refine ⟨⟨by simp [wide], fun r hr ↦ ?_⟩, fun id hcycle ↦ ?_, ?_⟩
  · rw [List.mem_singleton.mp hr]
    refine ⟨by decide, ?_, ?_⟩
    · rintro width ⟨⟩
      decide
    · rintro width ⟨⟩
      exact ⟨le_rfl, Int.pow_pos (by decide)⟩
  · obtain ⟨o, ho, -⟩ := TransGen.head'_iff.mp hcycle
    exact absurd ho List.not_mem_nil
  · rintro walk - first second ⟨read, hread, -⟩
    exact absurd hread List.not_mem_nil

theorem checked_eq_of_wide (m : Machine) : wide.checked m = .error (.mishap .tooManyDigits) := by
  have hmishap : Register.mishap? m ⟨"r", 0, some (10 ^ 25), false⟩ = some .tooManyDigits :=
    Machine.powerMishap?_of_countable_lt (by decide)
  have hsize : wide.sizeMishap? m = some .tooManyDigits := by
    show wide.sizeMishapIn m [_] = _
    rw [sizeMishapIn, hmishap]
    rfl
  rw [checked, hsize]

/-- The wide register is legal, but validation comes to a mishap on every machine. -/
theorem checked_wide : wide.Built ∧ wide.Legal ∧
    ∀ m, wide.checked m = .error (.mishap .tooManyDigits) :=
  ⟨wide_built, wide_legal, checked_eq_of_wide⟩

end Graph

end Datapath
