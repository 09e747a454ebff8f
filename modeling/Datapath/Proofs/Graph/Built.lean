import Datapath.Proofs.Graph.Index
import Datapath.Proofs.Graph.Outline
import Datapath.Proofs.Outcome
import Mathlib.Data.List.Induction
import Mathlib.Data.List.Nodup

/-!
# Graphs that can be built

A graph is built from the empty one by declaring registers, adding nodes and validating, in any
order. Validation may fail, and leaves some parts of a layout behind. Every such graph is
*coherent*: ids and register names are unique, the tables are those of the nodes, and a layout that
counts is the one that validation would compute again.
-/

namespace Datapath

namespace Graph

variable {g g' : Graph} {n : Node} {id : Int} {name : String} {r : Register}

/-! ## Views -/

theorem contains_iff : g.contains id = true ↔ id ∈ g.ids := by
  simp [contains, ids]

theorem mem_writes_of_write?_eq_some (h : g.write? (.str name) = some id) :
    id ∈ g.writes (.str name) :=
  List.mem_of_head? h

theorem mem_ids_of_mem_nodes (h : n ∈ g.nodes) : n.id ∈ g.ids := List.mem_map_of_mem h

theorem mem_nodes_of_node?_eq_some (h : g.node? id = some n) : n ∈ g.nodes ∧ n.id = id :=
  ⟨List.mem_of_find?_eq_some h, by simpa using List.find?_some h⟩

theorem mem_registers_of_register?_eq_some (h : g.register? name = some r) :
    r ∈ g.registers ∧ r.name = name :=
  ⟨List.mem_of_find?_eq_some h, by simpa using List.find?_some h⟩

private theorem find?_key {α κ : Type} [DecidableEq κ] {key : α → κ} {items : List α} {a : α}
    (h : (items.map key).Nodup) (ha : a ∈ items) :
    items.find? (fun b ↦ key b = key a) = some a := by
  obtain ⟨b, hb⟩ : ∃ b, items.find? (fun b ↦ key b = key a) = some b := by
    rw [← Option.isSome_iff_exists, List.find?_isSome]
    exact ⟨a, ha, by simp⟩
  have hkey : key b = key a := by simpa using List.find?_some hb
  rw [hb, List.inj_on_of_nodup_map h (List.mem_of_find?_eq_some hb) ha hkey]

/-! ## Coherence -/

/-- What every operation on a graph maintains. -/
structure Coherent (g : Graph) : Prop where
  ids_nodup : g.ids.Nodup
  names_nodup : (g.registers.map (·.name)).Nodup
  /-- The tables are those of the nodes. -/
  index_eq : g.index = .ofNodes g.nodes
  /-- A layout that counts is the one that would be computed. -/
  layout_known : ∀ layout, g.layout? = some layout → g.computeLayout = .ok layout

namespace Coherent

theorem eq_of_id_eq (h : g.Coherent) {m : Node} (hm : m ∈ g.nodes) (hn : n ∈ g.nodes)
    (hid : m.id = n.id) : m = n :=
  List.inj_on_of_nodup_map h.ids_nodup hm hn hid

theorem node?_id (h : g.Coherent) (hn : n ∈ g.nodes) : g.node? n.id = some n :=
  find?_key h.ids_nodup hn

theorem operands_id (h : g.Coherent) (hn : n ∈ g.nodes) : g.operands n.id = n.operands := by
  rw [operands, h.node?_id hn]
  rfl

theorem dependencies_id (h : g.Coherent) (hn : n ∈ g.nodes) :
    g.dependencies n.id = g.nodeDependencies n := by
  rw [dependencies, h.node?_id hn]
  rfl

theorem register?_name (h : g.Coherent) (hr : r ∈ g.registers) : g.register? r.name = some r :=
  find?_key h.names_nodup hr

theorem register?_eq_some_iff (h : g.Coherent) :
    g.register? name = some r ↔ r ∈ g.registers ∧ r.name = name := by
  refine ⟨mem_registers_of_register?_eq_some, ?_⟩
  rintro ⟨hr, rfl⟩
  exact h.register?_name hr

theorem consumers_eq (h : g.Coherent) (id : Int) :
    g.consumers id = g.nodes.flatMap fun n ↦ List.replicate (n.operands.count id) n.id := by
  rw [consumers, h.index_eq, Index.consumers_ofNodes]

theorem reads_eq (h : g.Coherent) (name : String) :
    g.reads (.str name) = Index.naming .regRead name g.nodes := by
  rw [reads, h.index_eq, Index.reads_ofNodes]

theorem writes_eq (h : g.Coherent) (name : String) :
    g.writes (.str name) = Index.naming .regWrite name g.nodes := by
  rw [writes, h.index_eq, Index.writes_ofNodes]

theorem reads_sublist (h : g.Coherent) (name : String) : (g.reads (.str name)).Sublist g.ids := by
  rw [h.reads_eq]
  exact List.filter_sublist.map _

theorem mem_reads_iff (h : g.Coherent) : id ∈ g.reads (.str name) ↔
    ∃ n ∈ g.nodes, n.kind = .regRead ∧ n.register = some (.str name) ∧ n.id = id := by
  rw [h.reads_eq, Index.mem_naming]

theorem mem_writes_iff (h : g.Coherent) : id ∈ g.writes (.str name) ↔
    ∃ n ∈ g.nodes, n.kind = .regWrite ∧ n.register = some (.str name) ∧ n.id = id := by
  rw [h.writes_eq, Index.mem_naming]

theorem eq_of_mem_reads (h : g.Coherent) {name' : String} (hid : id ∈ g.reads (.str name))
    (hid' : id ∈ g.reads (.str name')) : name = name' := by
  obtain ⟨n, hn, -, hregister, rfl⟩ := h.mem_reads_iff.mp hid
  obtain ⟨m, hm, -, hregister', heq⟩ := h.mem_reads_iff.mp hid'
  rw [h.eq_of_id_eq hm hn heq, hregister] at hregister'
  cases hregister'
  rfl

theorem ne_of_mem_reads_of_mem_writes (h : g.Coherent) {name' : String} {read write : Int}
    (hread : read ∈ g.reads (.str name)) (hwrite : write ∈ g.writes (.str name')) :
    read ≠ write := by
  obtain ⟨n, hn, hkind, -, rfl⟩ := h.mem_reads_iff.mp hread
  obtain ⟨m, hm, hkind', -, rfl⟩ := h.mem_writes_iff.mp hwrite
  intro heq
  rw [h.eq_of_id_eq hn hm heq, hkind'] at hkind
  cases hkind

end Coherent

/-! ## Validating

Validation looks at the nodes, their tables and the registers only. What it leaves in a graph is a
whole layout or, after a fault, some parts of one that do not count. -/

theorem computeLayout_congr (hnodes : g'.nodes = g.nodes) (hregisters : g'.registers = g.registers)
    (hindex : g'.index = g.index) : g'.computeLayout = g.computeLayout := by
  obtain ⟨nodes, registers, nextId, index, validated, order, components, loops⟩ := g
  obtain ⟨nodes', registers', nextId', index', validated', order', components', loops'⟩ := g'
  dsimp only at hnodes hregisters hindex
  subst hnodes hregisters hindex
  rfl

/-- A graph with a layout that counts. -/
def keep (g : Graph) (layout : Layout) : Graph :=
  { g with
    validated := true
    order := layout.order
    components := layout.components
    loops := layout.loops }

private theorem layout?_eq_none : g.layout? = none ↔ g.validated = false := by
  rw [layout?]
  cases g.validated <;> simp

theorem layout?_eq_some {layout : Layout} :
    g.layout? = some layout ↔ g.validated = true ∧ g.kept = layout := by
  rw [layout?]
  cases g.validated <;> simp

theorem revalidate_cases (g : Graph) :
    (g.validated = true ∧ g.revalidate = (g, .ok ())) ∨
    (g.validated = false ∧ ∃ layout, g.computeLayout = .ok layout ∧
      g.revalidate = (g.keep layout, .ok ())) ∨
    (g.validated = false ∧ ∃ fault order components, g.computeLayout = .error fault ∧
      g.revalidate = ({ g with order, components }, .error fault)) := by
  by_cases hvalidated : g.validated = true
  · exact Or.inl ⟨hvalidated, by rw [revalidate, if_pos hvalidated]⟩
  · have hfalse : g.validated = false := Bool.eq_false_iff.mpr hvalidated
    right
    rw [revalidate, if_neg hvalidated, computeLayout]
    cases g.partFault? with
    | some fault => exact Or.inr ⟨hfalse, fault, g.order, g.components, rfl, rfl⟩
    | none =>
      rw [arrange]
      cases g.operandOrder with
      | error fault => exact Or.inr ⟨hfalse, fault, g.order, g.components, rfl, rfl⟩
      | ok order =>
        have hloops : feedbackLoops { g with order, components := g.dependencyComponents } order
            g.dependencyComponents = g.feedbackLoops order g.dependencyComponents := rfl
        have hcomponents : dependencyComponents { g with order } = g.dependencyComponents := rfl
        dsimp only
        rw [hcomponents, hloops, Outcome.ok_bind]
        cases g.feedbackLoops order g.dependencyComponents with
        | error fault => exact Or.inr ⟨hfalse, fault, order, g.dependencyComponents, rfl, rfl⟩
        | ok loops => exact Or.inl ⟨hfalse, ⟨order, g.dependencyComponents, loops⟩, rfl, rfl⟩

theorem layout_of_layout? {layout : Layout} (h : g.layout? = some layout) :
    g.layout = .ok layout := by
  obtain ⟨hvalidated, rfl⟩ := layout?_eq_some.mp h
  rw [Graph.layout, validate, revalidate, if_pos hvalidated]
  rfl

private theorem layout_of_unknown (h : g.layout? = none) : g.layout = g.computeLayout := by
  rw [layout?_eq_none] at h
  rcases g.revalidate_cases with ⟨htrue, -⟩ | ⟨-, layout, hlayout, heq⟩ |
    ⟨-, fault, order, components, hfault, heq⟩
  · rw [h] at htrue
    cases htrue
  · rw [Graph.layout, validate, heq, hlayout]
    rfl
  · rw [layout, validate, heq, hfault]
    rfl

/-- The layout of a coherent graph is computed, whether it is kept or not. -/
theorem Coherent.layout_eq (h : g.Coherent) : g.layout = g.computeLayout := by
  cases hlayout : g.layout? with
  | none => exact layout_of_unknown hlayout
  | some layout => rw [layout_of_layout? hlayout, h.layout_known layout hlayout]

theorem validate_eq_ok (h : g.validate = .ok g') :
    ∃ layout, g.layout = .ok layout ∧ g' = g.keep layout := by
  rcases g.revalidate_cases with ⟨htrue, heq⟩ | ⟨-, layout, hlayout, heq⟩ |
    ⟨-, fault, order, components, -, heq⟩
  · rw [validate, heq] at h
    obtain rfl : g = g' := Except.ok.inj h
    refine ⟨g.kept, layout_of_layout? (layout?_eq_some.mpr ⟨htrue, rfl⟩), ?_⟩
    rw [keep, ← htrue]
    rfl
  · refine ⟨layout, ?_, ?_⟩
    · rw [Graph.layout, validate, heq]
      rfl
    · rw [validate, heq] at h
      exact (Except.ok.inj h).symm
  · rw [validate, heq] at h
    cases h

theorem layout_of_validate (h : g.validate = .ok g') : g'.layout = g.layout := by
  obtain ⟨layout, hlayout, rfl⟩ := validate_eq_ok h
  rw [hlayout, layout_of_layout? (layout?_eq_some.mpr ⟨rfl, rfl⟩)]
  rfl

theorem validate_eq_error {fault : Malformed} :
    g.validate = .error fault ↔ g.layout = .error fault := by
  rw [layout, Outcome.map_eq_error]

theorem revalidate_eq (g : Graph) : ∃ validated order components loops,
    g.revalidate.1 = { g with validated, order, components, loops } := by
  rcases g.revalidate_cases with ⟨-, heq⟩ | ⟨-, layout, -, heq⟩ |
    ⟨-, fault, order, components, -, heq⟩
  · exact ⟨g.validated, g.order, g.components, g.loops, congrArg Prod.fst heq⟩
  · exact ⟨true, layout.order, layout.components, layout.loops, congrArg Prod.fst heq⟩
  · exact ⟨g.validated, order, components, g.loops, congrArg Prod.fst heq⟩

/-! ## Building -/

/-- The graphs that come out of declaring registers, adding nodes and validating, in any order. -/
inductive Built : Graph → Prop
  | empty : Built empty
  | declare {g g' : Graph} {r : Register} : Built g → g.declare r = .ok g' → Built g'
  | add {g g' : Graph} {operation : Operation} {id? : Option Int} {id : Int} :
    Built g → g.add operation id? = .ok (g', id) → Built g'
  /-- The graph is validated, whatever comes out. -/
  | revalidate {g : Graph} : Built g → Built g.revalidate.1

private theorem coherent_empty : empty.Coherent where
  ids_nodup := List.nodup_nil
  names_nodup := List.nodup_nil
  index_eq := rfl
  layout_known := by simp [empty, ofParts, layout?]

theorem declare_eq_ok (h : g.declare r = .ok g') : g.register? r.name = none ∧
    g' = { g with registers := g.registers ++ [r], validated := false } := by
  rw [declare] at h
  split at h
  case isTrue => cases h
  case isFalse hnew =>
    cases h
    exact ⟨Option.not_isSome_iff_eq_none.mp hnew, rfl⟩

theorem add_eq_ok {operation : Operation} {id? : Option Int}
    (h : g.add operation id? = .ok (g', id)) : id = id?.getD g.nextId ∧ g.contains id = false ∧
      g' = { g with
        nodes := g.nodes ++ [⟨operation, id⟩]
        nextId := max g.nextId (id + 1)
        index := g.index.enter ⟨operation, id⟩
        validated := false } := by
  rw [add] at h
  split at h
  case isTrue => cases h
  case isFalse hnew =>
    cases h
    exact ⟨rfl, Bool.eq_false_iff.mpr hnew, rfl⟩

theorem declare_eq_error {cause : Malformed} (h : g.declare r = .error cause) :
    cause = .declaredTwice r.name ∧ ∃ r', g.register? r.name = some r' := by
  rw [declare] at h
  split at h
  case isFalse => cases h
  case isTrue htaken =>
    cases h
    exact ⟨rfl, Option.isSome_iff_exists.mp htaken⟩

theorem add_eq_error {operation : Operation} {id? : Option Int} {cause : Malformed}
    (h : g.add operation id? = .error cause) :
    cause = .duplicateId (id?.getD g.nextId) ∧ g.contains (id?.getD g.nextId) = true := by
  rw [add] at h
  split at h
  case isFalse => cases h
  case isTrue htaken =>
    cases h
    exact ⟨rfl, htaken⟩

theorem isSome_register?_iff {name : String} :
    (g.register? name).isSome = true ↔ name ∈ g.registers.map (·.name) := by
  rw [register?, List.find?_isSome, List.mem_map]
  simp only [decide_eq_true_eq]

theorem declare_of_notMem (h : r.name ∉ g.registers.map (·.name)) :
    g.declare r = .ok { g with registers := g.registers ++ [r], validated := false } := by
  rw [declare, if_neg]
  rwa [isSome_register?_iff]

theorem declare_of_mem (h : r.name ∈ g.registers.map (·.name)) :
    g.declare r = .error (.declaredTwice r.name) := by
  rw [declare, if_pos]
  rwa [isSome_register?_iff]

theorem add_of_notMem (operation : Operation) (id? : Option Int) (h : id?.getD g.nextId ∉ g.ids) :
    g.add operation id? = .ok ({ g with
      nodes := g.nodes ++ [⟨operation, id?.getD g.nextId⟩]
      nextId := max g.nextId (id?.getD g.nextId + 1)
      index := g.index.enter ⟨operation, id?.getD g.nextId⟩
      validated := false }, id?.getD g.nextId) := by
  rw [add, if_neg]
  rwa [contains_iff]

theorem add_of_mem (operation : Operation) (id? : Option Int) (h : id?.getD g.nextId ∈ g.ids) :
    g.add operation id? = .error (.duplicateId (id?.getD g.nextId)) := by
  rw [add, if_pos]
  rwa [contains_iff]

theorem Coherent.declare (h : g.Coherent) (hg' : g.declare r = .ok g') : g'.Coherent := by
  obtain ⟨hnew, rfl⟩ := declare_eq_ok hg'
  refine ⟨h.ids_nodup, ?_, h.index_eq, by simp [layout?]⟩
  rw [List.map_append, List.map_cons, List.map_nil, ← List.concat_eq_append]
  refine List.Nodup.concat ?_ h.names_nodup
  intro hmem
  rw [← isSome_register?_iff, hnew] at hmem
  cases hmem

theorem Coherent.add (h : g.Coherent) {operation : Operation} {id? : Option Int}
    (hg' : g.add operation id? = .ok (g', id)) : g'.Coherent := by
  obtain ⟨-, hnew, rfl⟩ := add_eq_ok hg'
  refine ⟨?_, h.names_nodup, ?_, by simp [layout?]⟩
  · rw [ids, List.map_append, List.map_cons, List.map_nil, ← List.concat_eq_append]
    exact List.Nodup.concat (fun hmem ↦ Bool.eq_false_iff.mp hnew (contains_iff.mpr hmem))
      h.ids_nodup
  · rw [Index.ofNodes_concat, h.index_eq]

theorem Coherent.revalidate (h : g.Coherent) : g.revalidate.1.Coherent := by
  rcases g.revalidate_cases with ⟨-, heq⟩ | ⟨-, layout, hlayout, heq⟩ |
    ⟨hfalse, fault, order, components, -, heq⟩
  · rwa [heq]
  · rw [heq]
    refine ⟨h.ids_nodup, h.names_nodup, h.index_eq, fun found hfound ↦ ?_⟩
    obtain rfl : layout = found := Option.some_inj.mp hfound
    rw [← hlayout]
    exact computeLayout_congr rfl rfl rfl
  · rw [heq]
    exact ⟨h.ids_nodup, h.names_nodup, h.index_eq, by simp [layout?, hfalse]⟩

theorem Built.coherent (h : g.Built) : g.Coherent := by
  induction h with
  | empty => exact coherent_empty
  | declare _ hg' ih => exact ih.declare hg'
  | add _ hg' ih => exact ih.add hg'
  | revalidate _ ih => exact ih.revalidate

theorem Built.nextId_eq (h : g.Built) : g.nextId = freshId g.nodes := by
  induction h with
  | empty => rfl
  | declare _ hg' ih =>
    obtain ⟨-, rfl⟩ := declare_eq_ok hg'
    exact ih
  | add _ hg' ih =>
    obtain ⟨-, -, rfl⟩ := add_eq_ok hg'
    rw [freshId, List.foldl_append, ← freshId, ← ih]
    rfl
  | @revalidate g _ ih =>
    obtain ⟨validated, order, components, loops, heq⟩ := g.revalidate_eq
    rw [heq]
    exact ih

/-- A graph is determined by its nodes, its registers and what is known of its layout. -/
theorem Built.forget_eq (h : g.Built) : g.forget = .ofParts g.nodes g.registers := by
  rw [ofParts, ← h.nextId_eq, ← h.coherent.index_eq]
  rfl

theorem Built.id_lt_nextId (h : g.Built) (hn : n ∈ g.nodes) : n.id < g.nextId := by
  induction h with
  | empty => cases hn
  | declare _ hg' ih =>
    obtain ⟨-, rfl⟩ := declare_eq_ok hg'
    exact ih hn
  | add _ hg' ih =>
    obtain ⟨-, -, rfl⟩ := add_eq_ok hg'
    rcases List.mem_append.mp hn with hold | hnew
    · exact Int.lt_of_lt_of_le (ih hold) (Int.le_max_left _ _)
    · rw [List.mem_singleton.mp hnew]
      exact Int.lt_of_lt_of_le (Int.lt_succ _) (Int.le_max_right _ _)
  | @revalidate g _ ih =>
    obtain ⟨validated, order, components, loops, heq⟩ := g.revalidate_eq
    rw [heq] at hn ⊢
    exact ih hn

theorem declare_ofParts {nodes : List Node} {registers : List Register}
    (h : ((registers ++ [r]).map (·.name)).Nodup) :
    (ofParts nodes registers).declare r = .ok (ofParts nodes (registers ++ [r])) := by
  rw [List.map_append, List.nodup_append] at h
  exact declare_of_notMem fun hmem ↦
    h.2.2 r.name hmem r.name (List.mem_singleton_self _) rfl

theorem add_ofParts {nodes : List Node} {registers : List Register}
    (h : ((nodes ++ [n]).map (·.id)).Nodup) :
    (ofParts nodes registers).add n.toOperation (some n.id) =
      .ok (ofParts (nodes ++ [n]) registers, n.id) := by
  rw [List.map_append, List.nodup_append] at h
  rw [ofParts, ofParts, freshId, freshId, List.foldl_concat, Index.ofNodes_concat]
  exact add_of_notMem n.toOperation (some n.id) fun hmem ↦
    h.2.2 n.id hmem n.id (List.mem_singleton_self _) rfl

/-- Nodes with distinct ids and registers with distinct names can be put together in any order. -/
theorem built_of_nodup {nodes : List Node} {registers : List Register}
    (hids : (nodes.map (·.id)).Nodup) (hnames : (registers.map (·.name)).Nodup) :
    Built (.ofParts nodes registers) := by
  induction nodes using List.reverseRecOn with
  | nil =>
    induction registers using List.reverseRecOn with
    | nil => exact .empty
    | append_singleton registers r ih =>
      have hrest := (List.nodup_append.mp (List.map_append ▸ hnames)).1
      exact .declare (ih hrest) (declare_ofParts hnames)
  | append_singleton nodes n ih =>
    have hrest := (List.nodup_append.mp (List.map_append ▸ hids)).1
    exact .add (ih hrest) (add_ofParts hids)

/-- A counter: a register of four bits that is read, incremented and written back. -/
def counter : Graph :=
  .ofParts [⟨.regRead (.str "count") none, 0⟩, ⟨.const 1 none, 1⟩, ⟨.binary .add 0 1 none, 2⟩,
    ⟨.regWrite (.str "count") 2 none, 3⟩] [⟨"count", 0, some 4, false⟩]

theorem counter_built : counter.Built := built_of_nodup (by decide) (by decide)

end Graph

end Datapath
