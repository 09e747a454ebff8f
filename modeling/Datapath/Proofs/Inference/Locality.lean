import Datapath.Proofs.Inference.Solution

/-!
# An interval depends on the cone of its node only

Two graphs may share a set of nodes that is closed under dependencies, with the same operations and
the same registers. Whatever else they hold, and in whatever order it was added, inference gives the
shared nodes the same intervals.

## Two runs

The two runs solve different components in different orders, so they are not compared step by step.
Both results solve the dataflow equations, and on the shared nodes the equations are the same. Along
the components of one graph they determine the intervals one after another: a node by its operands,
a read by the write of its register or by another read, and a loop by its run. The runs of a shared
loop go in lockstep, since an evaluation is determined by the seed and the intervals outside.
-/

namespace Datapath

open Relation

theorem Node.Agrees.symm {n m : Node} (h : n.Agrees m) : m.Agrees n :=
  ⟨h.kind.symm, h.operands.symm, h.value.symm, h.register.symm, h.bounds.symm⟩

namespace Graph

variable {g g' : Graph} {S : Set Int} {id : Int} {name : String}

/-- Two graphs share a set of nodes that is closed under dependencies in both. -/
structure SharedCone (g g' : Graph) (S : Set Int) : Prop where
  /-- The set is closed in the first graph. -/
  closed : ∀ id ∈ S, ∀ d ∈ g.dependencies id, d ∈ S
  /-- The set is closed in the second graph. -/
  closed' : ∀ id ∈ S, ∀ d ∈ g'.dependencies id, d ∈ S
  /-- The nodes agree, and so do the declarations of the registers that they read or write. -/
  node : ∀ id ∈ S, ∃ n n', g.node? id = some n ∧ g'.node? id = some n' ∧ n.Agrees n' ∧
    (n.kind.isRegister = true →
      ∀ name, n.registerName? = some name → g.register? name = g'.register? name)

namespace SharedCone

theorem symm (h : SharedCone g g' S) : SharedCone g' g S where
  closed := h.closed'
  closed' := h.closed
  node := by
    intro id hid
    obtain ⟨n, n', hn, hn', hagrees, hregister⟩ := h.node id hid
    refine ⟨n', n, hn', hn, hagrees.symm, fun hkind name hname ↦ ?_⟩
    refine (hregister (hagrees.kind ▸ hkind) name ?_).symm
    rw [← hname, Node.registerName?, Node.registerName?, hagrees.register]

theorem mem_ids (h : SharedCone g g' S) (hid : id ∈ S) : id ∈ g.ids := by
  obtain ⟨n, -, hn, -⟩ := h.node id hid
  obtain ⟨hmem, rfl⟩ := mem_nodes_of_node?_eq_some hn
  exact mem_ids_of_mem_nodes hmem

private theorem operands_eq (h : SharedCone g g' S) (hid : id ∈ S) :
    g.operands id = g'.operands id := by
  obtain ⟨n, n', hn, hn', hagrees, -⟩ := h.node id hid
  rw [operands, operands, hn, hn', Option.map_some, Option.map_some, hagrees.operands]

private theorem exists_node' (h : SharedCone g g' S) (hg : g.Coherent) {n : Node} (hn : n ∈ g.nodes)
    (hid : n.id ∈ S) : ∃ n' ∈ g'.nodes, n'.id = n.id ∧ n.Agrees n' := by
  obtain ⟨m, n', hm, hn', hagrees, -⟩ := h.node n.id hid
  rw [hg.node?_id hn] at hm
  cases hm
  obtain ⟨hmem, heq⟩ := mem_nodes_of_node?_eq_some hn'
  exact ⟨n', hmem, heq, hagrees⟩

theorem mem_reads (h : SharedCone g g' S) (hg : g.Coherent) (hg' : g'.Coherent) (hid : id ∈ S)
    (hread : id ∈ g.reads (.str name)) : id ∈ g'.reads (.str name) := by
  obtain ⟨n, hn, hkind, hregister, rfl⟩ := hg.mem_reads_iff.mp hread
  obtain ⟨n', hn', heq, hagrees⟩ := h.exists_node' hg hn hid
  exact hg'.mem_reads_iff.mpr ⟨n', hn', hagrees.kind ▸ hkind, hagrees.register ▸ hregister, heq⟩

theorem mem_writes (h : SharedCone g g' S) (hg : g.Coherent) (hg' : g'.Coherent) (hid : id ∈ S)
    (hwrite : id ∈ g.writes (.str name)) : id ∈ g'.writes (.str name) := by
  obtain ⟨n, hn, hkind, hregister, rfl⟩ := hg.mem_writes_iff.mp hwrite
  obtain ⟨n', hn', heq, hagrees⟩ := h.exists_node' hg hn hid
  exact hg'.mem_writes_iff.mpr ⟨n', hn', hagrees.kind ▸ hkind, hagrees.register ▸ hregister, heq⟩

theorem register?_eq (h : SharedCone g g' S) (hg : g.Coherent) (hid : id ∈ S)
    (hread : id ∈ g.reads (.str name) ∨ id ∈ g.writes (.str name)) :
    g.register? name = g'.register? name := by
  obtain ⟨n, hn, hkind, hregister, rfl⟩ := hg.exists_node_of_mem_reads_or_writes hread
  obtain ⟨m, -, hm, -, -, hsame⟩ := h.node n.id hid
  rw [hg.node?_id hn] at hm
  cases hm
  exact hsame hkind name (Node.registerName?_eq_some.mpr hregister)

theorem exists_register (h : SharedCone g g' S) (hg : g.Coherent) (hlegal : g.WellFormed)
    (hid : id ∈ S) (hread : id ∈ g.reads (.str name) ∨ id ∈ g.writes (.str name)) :
    ∃ r ∈ g.registers, r ∈ g'.registers ∧ r.name = name := by
  obtain ⟨r, hr, rfl⟩ := hlegal.declared_of_mem hg hread
  have hsame := h.register?_eq hg hid hread
  rw [hg.register?_name hr] at hsame
  exact ⟨r, hr, (mem_registers_of_register?_eq_some hsame.symm).1, rfl⟩

/-- What a shared node depends on is the same in both graphs. -/
theorem depends (h : SharedCone g g' S) (hg : g.Coherent) (hlegal : g.WellFormed)
    (hg' : g'.Coherent) (hid : id ∈ S) {d : Int} (hd : g.Depends id d) :
    d ∈ S ∧ g'.Depends id d := by
  have hdS := h.closed id hid d ((hlegal.mem_dependencies_iff hg).mpr hd)
  refine ⟨hdS, ?_⟩
  cases hd with
  | operand ho => exact .operand (h.operands_eq hid ▸ ho)
  | register hread hwrite =>
    exact .register (h.mem_reads hg hg' hid hread) (h.mem_writes hg hg' hdS hwrite)

theorem reaches (h : SharedCone g g' S) (hg : g.Coherent) (hlegal : g.WellFormed)
    (hg' : g'.Coherent) (hlegal' : g'.WellFormed) {x y : Int} (hx : x ∈ S)
    (hxy : Digraph.Reaches g.dependencies x y) : y ∈ S ∧ Digraph.Reaches g'.dependencies x y := by
  induction hxy with
  | refl => exact ⟨hx, ReflTransGen.refl⟩
  | tail _ hstep ih =>
    obtain ⟨hS, hdepends⟩ :=
      h.depends hg hlegal hg' ih.1 ((hlegal.mem_dependencies_iff hg).mp hstep)
    exact ⟨hS, ih.2.tail ((hlegal'.mem_dependencies_iff hg').mpr hdepends)⟩

section Components

variable {c c' : List Int} {x : Int}

theorem mem_component (h : SharedCone g g' S) (hg : g.Coherent) (hlegal : g.Legal)
    (hg' : g'.Coherent) (hlegal' : g'.Legal) (hc : c ∈ g.dependencyComponents)
    (hc' : c' ∈ g'.dependencyComponents) (hx : x ∈ c) (hx' : x ∈ c') (hS : x ∈ S) {y : Int}
    (hy : y ∈ c) : y ∈ S ∧ y ∈ c' := by
  have hstrong := (dependencies_decompose hg).strong c hc
  obtain ⟨hyS, hxy⟩ := h.reaches hg hlegal.toWellFormed hg' hlegal'.toWellFormed hS
    (hstrong x hx y hy)
  obtain ⟨-, hyx⟩ := h.reaches hg hlegal.toWellFormed hg' hlegal'.toWellFormed hyS
    (hstrong y hy x hx)
  exact ⟨hyS, (dependencies_decompose hg').mem_of_reaches hc' hx' hxy hyx⟩

theorem closingRegisters_eq (h : SharedCone g g' S) (hg : g.Coherent) (hlegal : g.Legal)
    (hg' : g'.Coherent) (hlegal' : g'.Legal) (hc : c ∈ g.dependencyComponents)
    (hc' : c' ∈ g'.dependencyComponents) (hx : x ∈ c) (hx' : x ∈ c') (hS : x ∈ S) {write : Int}
    (hclosing : g.closingRegisters c = [(name, write)]) :
    g'.closingRegisters c' = [(name, write)] := by
  have hmem : (name, write) ∈ g.closingRegisters c := by simp [hclosing]
  obtain ⟨hw, hwrite, read, hread, hr⟩ := (mem_closingRegisters_iff hg).mp hmem
  obtain ⟨hwS, hw'⟩ := h.mem_component hg hlegal hg' hlegal' hc hc' hx hx' hS hw
  obtain ⟨hrS, hr'⟩ := h.mem_component hg hlegal hg' hlegal' hc hc' hx hx' hS hr
  have hmem' : (name, write) ∈ g'.closingRegisters c' := (mem_closingRegisters_iff hg').mpr
    ⟨hw', h.mem_writes hg hg' hwS hwrite, read, h.mem_reads hg hg' hrS hread, hr'⟩
  have hlength := (untangled_iff hg' hlegal'.toWellFormed).mp hlegal'.untangled c' hc'
  obtain ⟨p, hp⟩ := List.length_eq_one_iff.mp
    (le_antisymm hlength (List.length_pos_of_mem hmem'))
  rw [hp, List.mem_singleton] at hmem'
  rw [hp, ← hmem']

theorem write?_eq (h : SharedCone g g' S) (hg : g.Coherent) (hlegal : g.Legal)
    (hg' : g'.Coherent) (hlegal' : g'.Legal) (hid : id ∈ S) (hread : id ∈ g.reads (.str name)) :
    g.write? (.str name) = g'.write? (.str name) := by
  cases hwrite : g.write? (.str name) with
  | some write =>
    have hmem := mem_writes_of_write?_eq_some hwrite
    obtain ⟨hS, -⟩ := h.depends hg hlegal.toWellFormed hg' hid (.register hread hmem)
    exact (hlegal'.write?_eq hg' (h.mem_writes hg hg' hS hmem)).symm
  | none =>
    cases hwrite' : g'.write? (.str name) with
    | none => rfl
    | some write =>
      have hmem := mem_writes_of_write?_eq_some hwrite'
      obtain ⟨hS, -⟩ := h.symm.depends hg' hlegal'.toWellFormed hg hid
        (.register (h.mem_reads hg hg' hid hread) hmem)
      rw [hlegal.write?_eq hg (h.symm.mem_writes hg' hg hS hmem)] at hwrite
      cases hwrite

end Components

end SharedCone

end Graph

namespace Inference

variable {g g' : Graph} {S : Set Int} {t : Tuning} {loop loop' : FeedbackLoop}
  {base base' env env' : Env} {seed final final' : Interval} {ends : List Int} {iteration : Int}

/-! ## Loops in lockstep -/

/-- Two loops consist of the same shared nodes. -/
structure Corresponds (S : Set Int) (loop loop' : FeedbackLoop) : Prop where
  /-- The nodes are shared. -/
  shared : ∀ id ∈ loop.nodes, id ∈ S
  nodes : ∀ id, id ∈ loop.nodes ↔ id ∈ loop'.nodes
  reads : ∀ id, id ∈ loop.reads ↔ id ∈ loop'.reads
  write : loop.write = loop'.write
  /-- The write is one of the nodes. -/
  write_mem : loop.write ∈ loop.nodes

/-- An evaluation is determined by the seed and by the intervals outside the loop. -/
theorem Evaluates.unique (h : g.SharedCone g' S) (hg : g.Coherent) (hlegal : g.Legal)
    (hloop : Corresponds S loop loop') (hscheduled : Scheduled g loop)
    (hbase : ∀ id ∈ loop.nodes, ∀ o ∈ g.operands id, o ∉ loop.nodes →
      base.lookup o = base'.lookup o)
    (heval : Evaluates g t base loop seed env) (heval' : Evaluates g' t base' loop' seed env') :
    ∀ id ∈ loop.nodes, env.lookup id = env'.lookup id := by
  intro id hid
  have hall : ∀ id ∈ loop.nodes, id ∈ g.readyOrder := fun id hid ↦
    hlegal.mem_readyOrder hg (h.mem_ids (hloop.shared id hid))
  -- by induction on the place in the order of operations
  induction hplace : g.readyOrder.idxOf id using Nat.strong_induction_on generalizing id with
  | _ place ih =>
    by_cases hread : id ∈ loop.reads
    · rw [heval.reads id hread, heval'.reads id ((hloop.reads id).mp hread)]
    · obtain ⟨n, i, hn, hi, htransfer⟩ := heval.nodes id hid hread
      obtain ⟨n', i', hn', hi', htransfer'⟩ := heval'.nodes id ((hloop.nodes id).mp hid)
        (mt (hloop.reads id).mpr hread)
      obtain ⟨m, m', hm, hm', hagrees, hregister⟩ := h.node id (hloop.shared id hid)
      rw [hn] at hm
      rw [hn'] at hm'
      cases hm
      cases hm'
      have hkind : n.kind ≠ .regRead := fun hk ↦ hread (hscheduled.reads_complete id hid n hn hk)
      have hsame : transfer g t env [] n = transfer g' t env' [] n' := by
        refine transfer_congr hagrees hkind (fun hk ↦ hregister (by rw [hk]; rfl)) fun o ho ↦ ?_
        have hoperand : o ∈ g.operands id := by
          rwa [Graph.operands, hn, Option.map_some, Option.getD_some]
        by_cases hinside : o ∈ loop.nodes
        · have hbefore := Graph.idxOf_lt_of_mem_operands hg (hall id hid) hoperand
          exact ih _ (hplace ▸ hbefore) o hinside rfl
        · obtain ⟨j, hj⟩ := exists_lookup_of_transfer (htransfer []) ho
          obtain ⟨j', hj'⟩ := exists_lookup_of_transfer (htransfer' []) (hagrees.operands ▸ ho)
          have houtside := hbase id hid o hoperand hinside
          rw [heval.outside o hinside j hj,
            heval'.outside o (mt (hloop.nodes o).mpr hinside) j' hj'] at houtside
          rw [hj, hj', houtside]
      rw [htransfer, htransfer', Except.ok.injEq] at hsame
      rw [hi, hi', hsame]

/-- Two runs from the same seed go through the same seeds. -/
theorem Settles.unique (h : g.SharedCone g' S) (hg : g.Coherent) (hlegal : g.Legal)
    (hloop : Corresponds S loop loop') (hscheduled : Scheduled g loop)
    (hbase : ∀ id ∈ loop.nodes, ∀ o ∈ g.operands id, o ∉ loop.nodes →
      base.lookup o = base'.lookup o)
    (hrun : Settles g t base loop ends iteration seed final env)
    (hrun' : Settles g' t base' loop' ends iteration seed final' env') :
    final = final' ∧ ∀ id ∈ loop.nodes, env.lookup id = env'.lookup id := by
  have hwritten : ∀ {seed env env' written written'}, Evaluates g t base loop seed env →
      Evaluates g' t base' loop' seed env' → env.lookup loop.write = some written →
      env'.lookup loop'.write = some written' → written = written' := by
    intro seed env env' written written' heval heval' hw hw'
    rw [heval.unique h hg hlegal hloop hscheduled hbase heval' _ hloop.write_mem, hloop.write,
      hw'] at hw
    exact (Option.some_inj.mp hw).symm
  -- equal seeds lead to equal writes, so the runs stop together or grow their seeds alike
  induction hrun with
  | stop heval hw hleq =>
    cases hrun' with
    | stop heval' hw' _ => exact ⟨rfl, heval.unique h hg hlegal hloop hscheduled hbase heval'⟩
    | next heval' hw' hleq' _ =>
      rw [hwritten heval heval' hw hw', hleq'] at hleq
      cases hleq
  | next heval hw hleq _ ih =>
    cases hrun' with
    | stop heval' hw' hleq' =>
      rw [hwritten heval heval' hw hw', hleq'] at hleq
      cases hleq
    | next heval' hw' _ hrest' =>
      rw [← hwritten heval heval' hw hw'] at hrest'
      exact ih hrest'

/-! ## Two results -/

theorem Solution.exists_run {result : Inference} {c : List Int} {r : Register} (hg : g.Coherent)
    (hlegal : g.Legal) (h : Solution g t result) (hc : c ∈ g.dependencyComponents)
    (hloop : g.IsLoopOf c loop) (hr : r ∈ g.registers) (hname : loop.register = r.name) :
    ∃ ends final table, thresholds r = .ok ends ∧
      Settles g t result.nodes loop ends 1 (Interval.point r.init) final table ∧
      Extends table result.nodes := by
  obtain ⟨i, -, hsolved⟩ := h.register r hr
  cases hsolved with
  | held hnone _ => exact absurd hname (hnone c hc loop hloop)
  | loop hd hloop' hname' hends hrun hext =>
    obtain rfl := hloop.eq_of_register_eq hg hlegal hc hd hloop' (hname.trans hname'.symm)
    obtain rfl := hloop.unique hloop'
    exact ⟨_, _, _, hends, hrun, hext⟩

/-- Results of inference for two graphs that share a cone. -/
structure SharedRuns (g g' : Graph) (t : Tuning) (S : Set Int) (result result' : Inference) :
    Prop where
  /-- The graphs share a cone. -/
  cone : g.SharedCone g' S
  coherent : g.Coherent
  legal : g.Legal
  /-- The first result solves the equations of the first graph. -/
  solution : Solution g t result
  coherent' : g'.Coherent
  legal' : g'.Legal
  /-- The second result solves the equations of the second graph. -/
  solution' : Solution g' t result'

namespace SharedRuns

variable {result result' : Inference} {c : List Int} {x : Int} {r : Register}

theorem exists_component (h : SharedRuns g g' t S result result') (hS : x ∈ S) :
    ∃ c' ∈ g'.dependencyComponents, x ∈ c' :=
  (Graph.dependencies_decompose h.coherent').exists_mem (h.cone.symm.mem_ids hS)

theorem corresponds (h : SharedRuns g g' t S result result') {c' : List Int}
    (hc : c ∈ g.dependencyComponents) (hc' : c' ∈ g'.dependencyComponents) (hx : x ∈ c)
    (hx' : x ∈ c') (hS : x ∈ S) (hloop : g.IsLoopOf c loop) (hloop' : g'.IsLoopOf c' loop') :
    loop.register = loop'.register ∧ Corresponds S loop loop' := by
  have hclosing := h.cone.closingRegisters_eq h.coherent h.legal h.coherent' h.legal' hc hc' hx hx'
    hS hloop.closing
  rw [hloop'.closing, List.cons.injEq, Prod.mk.injEq] at hclosing
  obtain ⟨⟨hregister, hwrite⟩, -⟩ := hclosing
  have hmem : ∀ {y : Int}, y ∈ c → y ∈ S ∧ y ∈ c' :=
    h.cone.mem_component h.coherent h.legal h.coherent' h.legal' hc hc' hx hx' hS
  have hmem' : ∀ {y : Int}, y ∈ c' → y ∈ S ∧ y ∈ c :=
    h.cone.symm.mem_component h.coherent' h.legal' h.coherent h.legal hc' hc hx' hx hS
  have hnodes : ∀ {y : Int}, y ∈ loop.nodes ↔ y ∈ c := hloop.mem_nodes_iff h.coherent h.legal hc
  refine ⟨hregister.symm, ?_, ?_, ?_, hwrite.symm, ?_⟩
  · exact fun y hy ↦ (hmem (hnodes.mp hy)).1
  · intro y
    rw [hnodes, hloop'.mem_nodes_iff h.coherent' h.legal' hc']
    exact ⟨fun hy ↦ (hmem hy).2, fun hy ↦ (hmem' hy).2⟩
  · intro y
    rw [hloop.mem_reads_iff, hloop'.mem_reads_iff, hregister]
    constructor
    · rintro ⟨hread, hy⟩
      exact ⟨h.cone.mem_reads h.coherent h.coherent' (hmem hy).1 hread, (hmem hy).2⟩
    · rintro ⟨hread, hy⟩
      exact ⟨h.cone.symm.mem_reads h.coherent' h.coherent (hmem' hy).1 hread, (hmem' hy).2⟩
  · exact hnodes.mpr (hloop.write_mem h.coherent).1

theorem loop_step (h : SharedRuns g g' t S result result') (hc : c ∈ g.dependencyComponents)
    (hlength : c.length ≠ 1) (hx : x ∈ c) (hS : x ∈ S)
    (hbase : ∀ id ∈ c, ∀ o ∈ g.operands id, o ∉ c →
      result.nodes.lookup o = result'.nodes.lookup o) :
    result.nodes.lookup x = result'.nodes.lookup x := by
  obtain ⟨loop, hloop⟩ := Graph.exists_isLoopOf h.coherent h.legal hc hlength
  obtain ⟨c', hc', hx'⟩ := h.exists_component hS
  have hclosing' := h.cone.closingRegisters_eq h.coherent h.legal h.coherent' h.legal' hc hc' hx hx'
    hS hloop.closing
  have hlength' : c'.length ≠ 1 := by
    intro hone
    rw [Graph.closingRegisters_of_length_eq_one h.coherent' hone] at hclosing'
    cases hclosing'
  obtain ⟨loop', hloop'⟩ := Graph.exists_isLoopOf h.coherent' h.legal' hc' hlength'
  obtain ⟨hregister, hcorresponds⟩ := h.corresponds hc hc' hx hx' hS hloop hloop'
  -- both runs start at the initial value of the same register
  obtain ⟨-, hwrite⟩ := hloop.write_mem h.coherent
  obtain ⟨r, hr, hr', hname⟩ := h.cone.exists_register h.coherent h.legal.toWellFormed
    (hcorresponds.shared _ hcorresponds.write_mem) (Or.inr hwrite)
  obtain ⟨ends, final, table, hends, hrun, hext⟩ :=
    h.solution.exists_run h.coherent h.legal hc hloop hr hname.symm
  obtain ⟨ends', final', table', hends', hrun', hext'⟩ :=
    h.solution'.exists_run h.coherent' h.legal' hc' hloop' hr' (hregister ▸ hname.symm)
  rw [hends] at hends'
  cases hends'
  have hnodes : ∀ {y : Int}, y ∈ loop.nodes ↔ y ∈ c := hloop.mem_nodes_iff h.coherent h.legal hc
  obtain ⟨-, htables⟩ := hrun.unique h.cone h.coherent h.legal hcorresponds
    (scheduled_of_isLoopOf h.coherent h.legal hc hloop)
    (fun id hid o ho hout ↦ hbase id (hnodes.mp hid) o ho (mt hnodes.mpr hout)) hrun'
  obtain ⟨i, hi⟩ := hrun.evaluates.1.exists_lookup (hnodes.mpr hx)
  have hi' := htables x (hnodes.mpr hx)
  rw [hi] at hi'
  rw [hext x i hi, hext' x i hi'.symm]

theorem node_step (h : SharedRuns g g' t S result result') (hS : x ∈ S)
    (hread : ∀ name, x ∉ g.reads (.str name))
    (hoperands : ∀ o ∈ g.operands x, result.nodes.lookup o = result'.nodes.lookup o) :
    result.nodes.lookup x = result'.nodes.lookup x := by
  obtain ⟨n, n', hn, hn', hagrees, hregister⟩ := h.cone.node x hS
  obtain ⟨hmem, rfl⟩ := Graph.mem_nodes_of_node?_eq_some hn
  obtain ⟨hmem', heq⟩ := Graph.mem_nodes_of_node?_eq_some hn'
  have hkind : n.kind ≠ .regRead := by
    intro hk
    obtain ⟨r, -, -, hmemReads⟩ := h.legal.exists_register_of_read h.coherent hmem hk
    exact hread r.name hmemReads
  obtain ⟨i, hi, htransfer⟩ := h.solution.node n hmem hkind
  obtain ⟨i', hi', htransfer'⟩ := h.solution'.node n' hmem' (hagrees.kind ▸ hkind)
  have hsame : transfer g t result.nodes [] n = transfer g' t result'.nodes [] n' := by
    refine transfer_congr hagrees hkind (fun hk ↦ hregister (by rw [hk]; rfl)) fun o ho ↦ ?_
    exact hoperands o (by rwa [h.coherent.operands_id hmem])
  rw [htransfer, htransfer', Except.ok.injEq] at hsame
  rw [hi, ← heq, hi', hsame]

/-- The values of a register are determined by any shared read of it. -/
theorem register_eq_of_read (h : SharedRuns g g' t S result result') {name : String} (hS : x ∈ S)
    (hread : x ∈ g.reads (.str name))
    (heq : result.nodes.lookup x = result'.nodes.lookup x) :
    result.registers.lookup name = result'.registers.lookup name := by
  have hread' := h.cone.mem_reads h.coherent h.coherent' hS hread
  obtain ⟨i, hi, hvalue⟩ := h.solution.read name x hread
  obtain ⟨i', hi', hvalue'⟩ := h.solution'.read name x hread'
  rw [hvalue, hvalue', ← hi, ← hi', heq]

/-- A read that is in no loop: either an earlier read determines the values of the register, or no
loop does, and then they follow from the write. -/
theorem read_step (h : SharedRuns g g' t S result result') {earlier later : List (List Int)}
    (heq : g.dependencyComponents = earlier ++ [x] :: later) {name : String} (hS : x ∈ S)
    (hread : x ∈ g.reads (.str name))
    (hearlier : ∀ y ∈ earlier.flatten, y ∈ S → result.nodes.lookup y = result'.nodes.lookup y) :
    result.registers.lookup name = result'.registers.lookup name := by
  have hread' := h.cone.mem_reads h.coherent h.coherent' hS hread
  have hwrites : ∀ write ∈ g.writes (.str name), write ∈ S ∧ write ∈ earlier.flatten := by
    intro write hwrite
    have hdep : g.Depends x write := .register hread hwrite
    exact ⟨(h.cone.depends h.coherent h.legal.toWellFormed h.coherent' hS hdep).1,
      write_mem_of_read h.coherent h.legal heq hread hwrite⟩
  have hcomponent : ∀ e ∈ earlier, e ∈ g.dependencyComponents := by
    intro e he
    rw [heq]
    exact List.mem_append_left _ he
  obtain ⟨r, hr, hr', rfl⟩ :=
    h.cone.exists_register h.coherent h.legal.toWellFormed hS (Or.inl hread)
  obtain ⟨i, hi, hsolved⟩ := h.solution.register r hr
  obtain ⟨i', hi', hsolved'⟩ := h.solution'.register r hr'
  cases hsolved with
  | loop hc hloop hloopName _ _ _ =>
    -- the loop has a read that is solved before this one
    obtain ⟨hwc, hwrite⟩ := hloop.write_mem h.coherent
    rw [hloopName] at hwrite
    obtain ⟨hwS, hdone⟩ := hwrites _ hwrite
    obtain ⟨e, he, hwe⟩ := List.mem_flatten.mp hdone
    obtain rfl := (Graph.dependencies_decompose h.coherent).eq_of_mem hc (hcomponent e he) hwc hwe
    obtain ⟨c', hc', hwc'⟩ := h.exists_component hwS
    obtain ⟨other, hother⟩ := hloop.exists_mem_reads h.coherent
    obtain ⟨hotherRead, hotherc⟩ := hloop.mem_reads_iff.mp hother
    obtain ⟨hotherS, -⟩ := h.cone.mem_component h.coherent h.legal h.coherent' h.legal' hc hc' hwc
      hwc' hwS hotherc
    exact h.register_eq_of_read hotherS (hloopName ▸ hotherRead)
      (hearlier other (List.mem_flatten.mpr ⟨_, he, hotherc⟩) hotherS)
  | held _ hheld =>
    cases hsolved' with
    | loop hc' hloop' hloopName' _ _ _ =>
      -- the loop of the second graph is one of the first graph as well
      obtain ⟨hwc', hwrite'⟩ := hloop'.write_mem h.coherent'
      rw [hloopName'] at hwrite'
      obtain ⟨hwS, -⟩ := h.cone.symm.depends h.coherent' h.legal'.toWellFormed h.coherent hS
        (.register hread' hwrite')
      obtain ⟨-, hdone⟩ := hwrites _ (h.cone.symm.mem_writes h.coherent' h.coherent hwS hwrite')
      obtain ⟨e, he, hwe⟩ := List.mem_flatten.mp hdone
      obtain ⟨other, hother⟩ := hloop'.exists_mem_reads h.coherent'
      obtain ⟨hotherRead, hotherc⟩ := hloop'.mem_reads_iff.mp hother
      obtain ⟨hotherS, hothere⟩ := h.cone.symm.mem_component h.coherent' h.legal' h.coherent h.legal
        hc' (hcomponent e he) hwc' hwe hwS hotherc
      exact h.register_eq_of_read hotherS
        (h.cone.symm.mem_reads h.coherent' h.coherent hotherS (hloopName' ▸ hotherRead))
        (hearlier other (List.mem_flatten.mpr ⟨e, he, hothere⟩) hotherS)
    | held _ hheld' =>
      have hsame : heldValues g result.nodes r = heldValues g' result'.nodes r := by
        refine heldValues_congr (h.cone.write?_eq h.coherent h.legal h.coherent' h.legal' hS hread)
          fun write hwrite ↦ ?_
        obtain ⟨hwS, hdone⟩ := hwrites write (Graph.mem_writes_of_write?_eq_some hwrite)
        exact hearlier write hdone hwS
      rw [hheld, hheld', Except.ok.injEq] at hsame
      rw [hi, hi', hsame]

/-- The shared nodes of a component get the same intervals if those of the components before it
do. -/
theorem component_step (h : SharedRuns g g' t S result result') {earlier later : List (List Int)}
    (heq : g.dependencyComponents = earlier ++ c :: later)
    (hearlier : ∀ y ∈ earlier.flatten, y ∈ S → result.nodes.lookup y = result'.nodes.lookup y)
    (hx : x ∈ c) (hS : x ∈ S) : result.nodes.lookup x = result'.nodes.lookup x := by
  have hc : c ∈ g.dependencyComponents := by simp [heq]
  have hoperand : ∀ y ∈ c, y ∈ S → ∀ o ∈ g.operands y, o ∉ c →
      result.nodes.lookup o = result'.nodes.lookup o := by
    intro y hy hyS o ho hout
    have hdep : g.Depends y o := .operand ho
    have hmem := (h.legal.mem_dependencies_iff h.coherent).mpr hdep
    have hclosed := (Graph.dependencies_decompose h.coherent).closed _ _ _ heq y hy o hmem
    rcases hclosed with hinside | hdone
    · exact absurd hinside hout
    · exact hearlier o hdone (h.cone.depends h.coherent h.legal.toWellFormed h.coherent' hyS hdep).1
  by_cases hlength : c.length = 1
  · obtain ⟨y, rfl⟩ := List.length_eq_one_iff.mp hlength
    obtain rfl := List.mem_singleton.mp hx
    by_cases hread : ∃ name, x ∈ g.reads (.str name)
    · obtain ⟨name, hread⟩ := hread
      have hread' := h.cone.mem_reads h.coherent h.coherent' hS hread
      obtain ⟨i, hi, hvalue⟩ := h.solution.read name x hread
      obtain ⟨i', hi', hvalue'⟩ := h.solution'.read name x hread'
      rw [hi, hi', ← hvalue, ← hvalue', h.read_step heq hS hread hearlier]
    · refine h.node_step hS (fun name hname ↦ hread ⟨name, hname⟩) fun o ho ↦ ?_
      refine hoperand x hx hS o ho fun hmem ↦ ?_
      exact h.legal.acyclic x (TransGen.single (List.mem_singleton.mp hmem ▸ ho))
  · refine h.loop_step hc hlength hx hS fun y hy ↦ hoperand y hy ?_
    obtain ⟨c', hc', hx'⟩ := h.exists_component hS
    exact (h.cone.mem_component h.coherent h.legal h.coherent' h.legal' hc hc' hx hx' hS hy).1

end SharedRuns

/-- What passes from the components before a component to its nodes holds of all nodes. -/
theorem forall_mem_flatten {P : Int → Prop} {components : List (List Int)}
    (hstep : ∀ earlier c later, components = earlier ++ c :: later →
      (∀ x ∈ earlier.flatten, P x) → ∀ x ∈ c, P x) : ∀ x ∈ components.flatten, P x := by
  have hrun : ∀ later earlier : List (List Int), components = earlier ++ later →
      (∀ x ∈ earlier.flatten, P x) → ∀ x ∈ components.flatten, P x := by
    intro later
    induction later with
    | nil =>
      intro earlier heq hearlier
      rwa [heq, List.append_nil]
    | cons c later ih =>
      intro earlier heq hearlier
      refine ih (earlier ++ [c]) (by rw [heq, List.append_assoc]; rfl) ?_
      rw [List.flatten_append, List.flatten_singleton, List.forall_mem_append]
      exact ⟨hearlier, hstep earlier c later heq hearlier⟩
  exact hrun components [] rfl (by simp)

/-- **Inference is local.** Two graphs that share a set of nodes closed under dependencies, with the
same operations and the same registers, get the same intervals there. -/
theorem infer_eq_on_shared_cone {result result' : Inference} (hg : g.Built) (hg' : g'.Built)
    (hinfer : g.infer t = .ok result) (hinfer' : g'.infer t = .ok result')
    (hcone : g.SharedCone g' S) :
    ∀ id ∈ S, ∃ i, result.nodes.lookup id = some i ∧ result'.nodes.lookup id = some i := by
  obtain ⟨hlegal, hsolution⟩ := solution_of_infer hg.coherent hinfer
  obtain ⟨hlegal', hsolution'⟩ := solution_of_infer hg'.coherent hinfer'
  have h : SharedRuns g g' t S result result' :=
    ⟨hcone, hg.coherent, hlegal, hsolution, hg'.coherent, hlegal', hsolution'⟩
  have hall : ∀ x ∈ g.dependencyComponents.flatten, x ∈ S →
      result.nodes.lookup x = result'.nodes.lookup x :=
    forall_mem_flatten fun earlier c later heq hearlier x hx hS ↦
      h.component_step heq hearlier hx hS
  intro id hid
  have hids := hcone.mem_ids hid
  have hflat := (Graph.mem_flatten_dependencyComponents_iff hg.coherent).mpr hids
  obtain ⟨i, hi⟩ := hsolution.exists_lookup hg.coherent hlegal hids
  refine ⟨i, hi, ?_⟩
  rw [← hall id hflat hid, hi]

/-- The counter with its nodes in another order, another register and an output. -/
def shuffledCounter : Graph :=
  .ofParts [⟨.regWrite (.str "count") 2 none, 3⟩, ⟨.binary .add 0 1 none, 2⟩, ⟨.const 1 none, 1⟩,
    ⟨.regRead (.str "count") none, 0⟩, ⟨.output 2 none none, 4⟩]
    [⟨"spare", 5, none, false⟩, ⟨"count", 0, some 4, false⟩]

private theorem shuffledCounter_built : shuffledCounter.Built :=
  Graph.built_of_nodup (by decide) (by decide)

private theorem sharedCone_counter :
    Graph.counter.SharedCone shuffledCounter {id | id ∈ [0, 1, 2, 3]} where
  closed := by
    change ∀ id ∈ [0, 1, 2, 3], ∀ d ∈ Graph.counter.dependencies id, d ∈ [0, 1, 2, 3]
    decide
  closed' := by
    change ∀ id ∈ [0, 1, 2, 3], ∀ d ∈ shuffledCounter.dependencies id, d ∈ [0, 1, 2, 3]
    decide
  node := by
    intro id hid
    change id ∈ [0, 1, 2, 3] at hid
    simp only [List.mem_cons, List.not_mem_nil, or_false] at hid
    rcases hid with rfl | rfl | rfl | rfl
    · exact ⟨_, _, rfl, rfl, ⟨rfl, rfl, rfl, rfl, rfl⟩, fun _ name hname ↦ by cases hname; rfl⟩
    · exact ⟨_, _, rfl, rfl, ⟨rfl, rfl, rfl, rfl, rfl⟩, fun _ name hname ↦ by cases hname⟩
    · exact ⟨_, _, rfl, rfl, ⟨rfl, rfl, rfl, rfl, rfl⟩, fun _ name hname ↦ by cases hname⟩
    · exact ⟨_, _, rfl, rfl, ⟨rfl, rfl, rfl, rfl, rfl⟩, fun _ name hname ↦ by cases hname; rfl⟩

theorem infer_counter_eq_shuffled : ∃ result result',
    Graph.counter.infer .default = .ok result ∧ shuffledCounter.infer .default = .ok result' ∧
    ∃ i, result.nodes.lookup 3 = some i ∧ result'.nodes.lookup 3 = some i := by
  obtain ⟨result, hresult⟩ := exists_infer_counter
  obtain ⟨result', hresult'⟩ :=
    Outcome.exists_of_isOk (show (shuffledCounter.infer .default).isOk = true by decide +kernel)
  exact ⟨result, result', hresult, hresult', infer_eq_on_shared_cone Graph.counter_built
    shuffledCounter_built hresult hresult' sharedCone_counter 3 (by simp)⟩

end Inference

end Datapath
