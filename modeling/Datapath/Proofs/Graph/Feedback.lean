import Datapath.Proofs.Digraph.Path
import Datapath.Proofs.Graph.Legal

/-!
# Feedback

Validation looks at the components of the dependencies, one at a time: at most one register may
close a component. A legal graph is described by closed walks instead. This module shows that the
two agree.

## Closed walks and components

The nodes of a closed walk lead to each other, so they lie in one component. Conversely, if a
component holds a read and the write of one register, and of another, then a closed walk passes
through both. A component with several nodes is closed by some register, for otherwise it would be a
cycle of operands.
-/

namespace Datapath.Graph

open Relation

variable {g : Graph} {name : String} {c : List Int}

/-! ## Registers that close a component -/

/-- A register closes a component when its write and one of its reads lie in it. -/
theorem mem_closingRegisters_iff (hg : g.Coherent) {write : Int} :
    (name, write) ∈ g.closingRegisters c ↔
      write ∈ c ∧ write ∈ g.writes (.str name) ∧ ∃ read ∈ g.reads (.str name), read ∈ c := by
  rw [closingRegisters, List.mem_mergeSort, List.mem_filterMap]
  constructor
  · rintro ⟨id, hid, heq⟩
    obtain ⟨n, hn, heq⟩ := Option.bind_eq_some_iff.mp heq
    obtain ⟨hmem, rfl⟩ := mem_nodes_of_node?_eq_some hn
    split at heq
    case isFalse => cases heq
    case isTrue hkind =>
      obtain ⟨name', hname, heq⟩ := Option.bind_eq_some_iff.mp heq
      split at heq
      case isFalse => cases heq
      case isTrue hread =>
        cases heq
        refine ⟨hid, hg.mem_writes_iff.mpr
          ⟨n, hmem, hkind, Node.registerName?_eq_some.mp hname, rfl⟩, ?_⟩
        simpa using hread
  · rintro ⟨hwrite, hmem, read, hread, hreadc⟩
    obtain ⟨n, hn, hkind, hregister, rfl⟩ := hg.mem_writes_iff.mp hmem
    refine ⟨n.id, hwrite, ?_⟩
    have hany : (g.reads (.str name)).any (c.contains ·) = true :=
      List.any_eq_true.mpr ⟨read, hread, by simpa using hreadc⟩
    rw [hg.node?_id hn, Option.bind_some, if_pos hkind, Node.registerName?_eq_some.mpr hregister,
      Option.bind_some, if_pos hany]

theorem nodup_closingRegisters (hc : c.Nodup) : (g.closingRegisters c).Nodup := by
  rw [closingRegisters, (List.mergeSort_perm _ _).nodup_iff]
  refine List.Nodup.filterMap (fun id id' p hp hp' ↦ ?_) hc
  have hsnd : ∀ {id : Int} {p : String × Int}, (g.node? id).bind (fun n ↦
      if n.kind = .regWrite then
        n.registerName?.bind fun name ↦
          if (g.reads (.str name)).any (c.contains ·) then some (name, id) else none
      else none) = some p → p.2 = id := by
    intro id p hp
    obtain ⟨n, -, hp⟩ := Option.bind_eq_some_iff.mp hp
    split at hp
    case isFalse => cases hp
    case isTrue =>
      obtain ⟨name, -, hp⟩ := Option.bind_eq_some_iff.mp hp
      split at hp
      case isFalse => cases hp
      case isTrue => cases hp; rfl
  rw [← hsnd hp, ← hsnd hp']

theorem eq_of_mem_closingRegisters (hg : g.Coherent) (h : g.WellFormed)
    {first second : String × Int} (hfirst : first ∈ g.closingRegisters c)
    (hsecond : second ∈ g.closingRegisters c) (hname : first.1 = second.1) : first = second := by
  have hwrite := ((mem_closingRegisters_iff hg).mp hfirst).2.1
  rw [hname, h.writes_eq hg ((mem_closingRegisters_iff hg).mp hsecond).2.1, List.mem_singleton]
    at hwrite
  exact Prod.ext hname hwrite

/-- A dependency inside a component that no register closes is an operand. -/
private theorem mem_operands_of_not_closed (hg : g.Coherent) (h : g.WellFormed)
    (hnone : g.closingRegisters c = []) {x y : Int} (hx : x ∈ c)
    (hy : y ∈ (g.dependencies x).filter (c.contains ·)) : y ∈ c ∧ y ∈ g.operands x := by
  obtain ⟨hdep, hmem⟩ := List.mem_filter.mp hy
  have hyc := List.contains_iff_mem.mp hmem
  refine ⟨hyc, ?_⟩
  cases (h.mem_dependencies_iff hg).mp hdep with
  | operand ho => exact ho
  | register hread hwrite =>
    have hclosing := (mem_closingRegisters_iff hg).mpr ⟨hyc, hwrite, _, hread, hx⟩
    rw [hnone] at hclosing
    exact absurd hclosing List.not_mem_nil

/-- Some register closes a component of several nodes. -/
theorem closingRegisters_ne_nil (hg : g.Coherent) (h : g.WellFormed) (hacyclic : g.Acyclic)
    (hc : c ∈ g.dependencyComponents) (hlength : c.length ≠ 1) : g.closingRegisters c ≠ [] := by
  intro hnone
  have hdecompose := dependencies_decompose hg
  have hpos := List.length_pos_iff.mpr (hdecompose.ne_nil c hc)
  obtain ⟨x, hx⟩ := List.exists_mem_of_ne_nil c (hdecompose.ne_nil c hc)
  obtain ⟨u, hxu, hux⟩ := hdecompose.exists_return hc (by omega) hx
  -- without a register the way back runs along operands only
  have hoperands : u ∈ c ∧ ReflTransGen (fun a b ↦ b ∈ g.operands a) x u := by
    clear hux
    induction hxu with
    | refl => exact ⟨hx, ReflTransGen.refl⟩
    | tail _ hstep ih =>
      obtain ⟨hmem, ho⟩ := mem_operands_of_not_closed hg h hnone ih.1 hstep
      exact ⟨hmem, ih.2.tail ho⟩
  obtain ⟨-, hback⟩ := mem_operands_of_not_closed hg h hnone hoperands.1 hux
  exact hacyclic x (TransGen.tail' hoperands.2 hback)

/-- No register closes a single node, which cannot both read and write it. -/
theorem closingRegisters_of_length_eq_one (hg : g.Coherent) (hlength : c.length = 1) :
    g.closingRegisters c = [] := by
  obtain ⟨id, rfl⟩ := List.length_eq_one_iff.mp hlength
  refine List.eq_nil_iff_forall_not_mem.mpr fun closing hclosing ↦ ?_
  obtain ⟨hwrite, hmem, read, hread, hreadc⟩ := (mem_closingRegisters_iff hg).mp hclosing
  rw [List.mem_singleton] at hwrite hreadc
  exact hg.ne_of_mem_reads_of_mem_writes hread hmem (hreadc.trans hwrite.symm)

/-! ## Closed walks -/

section Walks

variable {α : Type} {r : α → α → Prop} {walk : List α} {x : α}

private theorem reaches_of_mem_of_head? (h : walk.IsChain r) (hx : x ∈ walk) {start : α}
    (hstart : walk.head? = some start) : ReflTransGen r start x := by
  obtain ⟨before, after, rfl⟩ := List.append_of_mem hx
  cases before with
  | nil =>
    cases hstart
    exact ReflTransGen.refl
  | cons a before =>
    cases hstart
    rw [List.append_cons] at h
    exact List.relationReflTransGen_of_exists_isChain_cons _ h.left_of_append (by simp)

private theorem reaches_of_mem_of_getLast? (h : walk.IsChain r) (hx : x ∈ walk) {last : α}
    (hlast : walk.getLast? = some last) : ReflTransGen r x last := by
  obtain ⟨before, after, rfl⟩ := List.append_of_mem hx
  rw [List.getLast?_append_of_ne_nil _ (List.cons_ne_nil _ _),
    List.getLast?_eq_some_getLast (List.cons_ne_nil _ _), Option.some_inj] at hlast
  exact List.relationReflTransGen_of_exists_isChain_cons _ h.right_of_append hlast

end Walks

theorem WellFormed.reaches_iff (hg : g.Coherent) (h : g.WellFormed) {x y : Int} :
    Digraph.Reaches g.dependencies x y ↔ ReflTransGen g.Depends x y := by
  have heq : (fun a b ↦ b ∈ g.dependencies a) = g.Depends :=
    funext₂ fun _ _ ↦ propext (h.mem_dependencies_iff hg)
  rw [Digraph.Reaches, heq]

/-- The nodes of a closed walk lead to each other. -/
theorem ClosedWalk.reaches {walk : List Int} (h : g.ClosedWalk walk) {x y : Int} (hx : x ∈ walk)
    (hy : y ∈ walk) : ReflTransGen g.Depends x y := by
  have hne := List.ne_nil_of_mem hx
  have hlast := List.getLast?_eq_some_getLast hne
  exact (reaches_of_mem_of_getLast? h.linked hx hlast).trans
    (reaches_of_mem_of_head? h.linked hy (h.closed.trans hlast))

/-- A component closed by two registers holds a closed walk through both. -/
theorem exists_closedWalk (hg : g.Coherent) (h : g.WellFormed) (hc : c ∈ g.dependencyComponents)
    {first second : String × Int} (hfirst : first ∈ g.closingRegisters c)
    (hsecond : second ∈ g.closingRegisters c) :
    ∃ walk, g.ClosedWalk walk ∧ g.PassesThrough walk first.1 ∧ g.PassesThrough walk second.1 := by
  obtain ⟨hw₁, hwrite₁, r₁, hread₁, hr₁⟩ := (mem_closingRegisters_iff hg).mp hfirst
  obtain ⟨hw₂, hwrite₂, r₂, hread₂, hr₂⟩ := (mem_closingRegisters_iff hg).mp hsecond
  have hreach : ∀ {x y : Int}, x ∈ c → y ∈ c → ReflTransGen g.Depends x y := fun hx hy ↦
    (h.reaches_iff hg).mp ((dependencies_decompose hg).strong c hc _ hx _ hy)
  obtain ⟨l₁, hchain₁, hlast₁⟩ := List.exists_isChain_cons_of_relationReflTransGen (hreach hw₁ hr₂)
  obtain ⟨l₂, hchain₂, hlast₂⟩ := List.exists_isChain_cons_of_relationReflTransGen (hreach hw₂ hr₁)
  -- from the first read to its write, on to the second read and its write, and back
  refine ⟨r₁ :: ((first.2 :: l₁) ++ (second.2 :: l₂)), ⟨?_, ?_⟩,
    ⟨r₁, hread₁, first.2, hwrite₁, ⟨[], l₁ ++ second.2 :: l₂, by simp⟩⟩,
    ⟨r₂, hread₂, second.2, hwrite₂,
      ⟨r₁ :: (first.2 :: l₁).dropLast, l₂, ?_⟩⟩⟩
  · refine List.IsChain.cons (hchain₁.append hchain₂ ?_) ?_
    · intro x hx y hy
      rw [List.getLast?_eq_some_getLast (List.cons_ne_nil _ _), hlast₁] at hx
      cases hx
      cases hy
      exact .register hread₂ hwrite₂
    · intro y hy
      cases hy
      exact .register hread₁ hwrite₁
  · rw [List.head?_cons, ← List.cons_append,
      List.getLast?_append_of_ne_nil _ (List.cons_ne_nil _ _),
      List.getLast?_eq_some_getLast (List.cons_ne_nil _ _), hlast₂]
  · have hsplit := List.dropLast_append_getLast (List.cons_ne_nil first.2 l₁)
    rw [hlast₁] at hsplit
    nth_rewrite 2 [← hsplit]
    simp

/-- No closed walk passes through two registers exactly when no component is closed by two. -/
theorem untangled_iff (hg : g.Coherent) (h : g.WellFormed) :
    (∀ walk, g.ClosedWalk walk → ∀ first second,
      g.PassesThrough walk first → g.PassesThrough walk second → first = second) ↔
    ∀ c ∈ g.dependencyComponents, (g.closingRegisters c).length ≤ 1 := by
  have hdecompose := dependencies_decompose hg
  constructor
  · intro huntangled c hc
    have hall : ∀ first ∈ g.closingRegisters c, ∀ second ∈ g.closingRegisters c,
        first = second := by
      intro first hfirst second hsecond
      obtain ⟨walk, hwalk, hthrough₁, hthrough₂⟩ := exists_closedWalk hg h hc hfirst hsecond
      exact eq_of_mem_closingRegisters hg h hfirst hsecond
        (huntangled walk hwalk _ _ hthrough₁ hthrough₂)
    have hnodup := nodup_closingRegisters (g := g) (hdecompose.nodup_of_mem hc)
    match hclosing : g.closingRegisters c with
    | [] => simp
    | [_] => simp
    | first :: second :: rest =>
      rw [hclosing] at hall hnodup
      have heq := hall first List.mem_cons_self second (List.mem_cons_of_mem _ List.mem_cons_self)
      exact absurd (heq ▸ List.mem_cons_self) (List.nodup_cons.mp hnodup).1
  · rintro hlength walk hwalk first second ⟨r₁, hread₁, w₁, hwrite₁, hinfix₁⟩
      ⟨r₂, hread₂, w₂, hwrite₂, hinfix₂⟩
    have hmem₁ : r₁ ∈ walk ∧ w₁ ∈ walk := by simpa using hinfix₁.subset
    have hmem₂ : r₂ ∈ walk ∧ w₂ ∈ walk := by simpa using hinfix₂.subset
    -- the walk lies in the component of its first read, which both registers close
    obtain ⟨c, hc, hr₁⟩ := hdecompose.exists_mem (hg.mem_ids_of_mem_reads hread₁)
    have hmem : ∀ {x : Int}, x ∈ walk → x ∈ c := fun hx ↦
      hdecompose.mem_of_reaches hc hr₁
        ((h.reaches_iff hg).mpr (hwalk.reaches hmem₁.1 hx))
        ((h.reaches_iff hg).mpr (hwalk.reaches hx hmem₁.1))
    have hclosing₁ : (first, w₁) ∈ g.closingRegisters c :=
      (mem_closingRegisters_iff hg).mpr ⟨hmem hmem₁.2, hwrite₁, r₁, hread₁, hr₁⟩
    have hclosing₂ : (second, w₂) ∈ g.closingRegisters c :=
      (mem_closingRegisters_iff hg).mpr ⟨hmem hmem₂.2, hwrite₂, r₂, hread₂, hmem hmem₂.1⟩
    obtain ⟨p, hp⟩ := List.length_eq_one_iff.mp
      (le_antisymm (hlength c hc) (List.length_pos_of_mem hclosing₁))
    rw [hp, List.mem_singleton] at hclosing₁ hclosing₂
    exact congrArg Prod.fst (hclosing₁.trans hclosing₂.symm)

/-! ## The walk that shows a tangle

It runs along the flow of values, so against the dependencies, and stays inside its component. There
the searches that make it up find what they look for. -/

theorem WellFormed.mem_flow_iff (hg : g.Coherent) (h : g.WellFormed) {x y : Int} :
    x ∈ g.flow y ↔ g.Depends x y := by
  rw [flow, List.mem_append, hg.mem_consumers_iff]
  constructor
  · rintro (ho | hread)
    · exact .operand ho
    · cases hnode : g.node? y with
      | none => simp [hnode] at hread
      | some n =>
        obtain ⟨hn, rfl⟩ := mem_nodes_of_node?_eq_some hnode
        rw [hnode] at hread
        dsimp only at hread
        split at hread
        case isFalse => cases hread
        case isTrue hkind =>
          -- a write names a declared register, so its register is a text
          obtain ⟨r, -, hregister⟩ := (h.node n hn).register_declared (by rw [hkind]; rfl)
          rw [hregister] at hread
          exact .register hread (hg.mem_writes_iff.mpr ⟨n, hn, hkind, hregister, rfl⟩)
  · intro hdepends
    cases hdepends with
    | operand ho => exact Or.inl ho
    | register hread hwrite =>
      obtain ⟨n, hn, hkind, hregister, rfl⟩ := hg.mem_writes_iff.mp hwrite
      right
      simpa [hg.node?_id hn, hkind, hregister] using hread

/-- The nodes of a component are joined by walks along the flow of values. -/
theorem exists_shortestPath (hg : g.Coherent) (h : g.WellFormed) (hc : c ∈ g.dependencyComponents)
    {source target : Int} (hsource : source ∈ c) (htarget : target ∈ c) :
    ∃ path, Digraph.shortestPath (c.length + 1) (fun id ↦ (g.flow id).filter (c.contains ·))
      source target = some path := by
  have hreverse : ∀ {x : Int},
      Digraph.Reaches (fun id ↦ (g.dependencies id).filter (c.contains ·)) target x →
      x ∈ c ∧ Digraph.Reaches (fun id ↦ (g.flow id).filter (c.contains ·)) x target := by
    intro x hx
    induction hx with
    | refl => exact ⟨htarget, ReflTransGen.refl⟩
    | tail _ hy ih =>
      obtain ⟨hdep, hmem⟩ := List.mem_filter.mp hy
      have hflow := (h.mem_flow_iff hg).mpr ((h.mem_dependencies_iff hg).mp hdep)
      exact ⟨List.contains_iff_mem.mp hmem,
        ih.2.head (List.mem_filter.mpr ⟨hflow, List.contains_iff_mem.mpr ih.1⟩)⟩
  have hreach := hreverse ((dependencies_decompose hg).reaches_inside hc htarget hsource)
  refine Option.isSome_iff_exists.mp (Digraph.shortestPath_isSome (U := c.toFinset) ?_
    (List.mem_toFinset.mpr hsource) hreach.2 (Nat.lt_succ_of_le c.toFinset_card_le))
  intro x _ w hw
  exact List.mem_toFinset.mpr (List.contains_iff_mem.mp (List.mem_filter.mp hw).2)

/-- The walk that shows how two registers are tangled: a read of each is found, and a way from each
to the write of the other. -/
def Tangled (g : Graph) (c : List Int) (first second : String × Int) (chain : List Int) : Prop :=
  ∃ read₁ read₂ path₁ path₂,
    (g.reads (.str first.1)).find? (c.contains ·) = some read₁ ∧
    (g.reads (.str second.1)).find? (c.contains ·) = some read₂ ∧
    Digraph.shortestPath (c.length + 1) (fun id ↦ (g.flow id).filter (c.contains ·))
      read₁ second.2 = some path₁ ∧
    Digraph.shortestPath (c.length + 1) (fun id ↦ (g.flow id).filter (c.contains ·))
      read₂ first.2 = some path₂ ∧
    chain = path₁ ++ path₂ ++ [read₁]

private theorem exists_read (hg : g.Coherent) {closing : String × Int}
    (h : closing ∈ g.closingRegisters c) :
    ∃ read, (g.reads (.str closing.1)).find? (c.contains ·) = some read ∧ read ∈ c := by
  obtain ⟨-, -, read, hread, hmem⟩ := (mem_closingRegisters_iff hg).mp h
  have hsome : ((g.reads (.str closing.1)).find? (c.contains ·)).isSome :=
    List.find?_isSome.mpr ⟨read, hread, List.contains_iff_mem.mpr hmem⟩
  obtain ⟨read', hread'⟩ := Option.isSome_iff_exists.mp hsome
  exact ⟨read', hread', List.contains_iff_mem.mp (List.find?_some hread')⟩

theorem tangled_tangle (hg : g.Coherent) (h : g.WellFormed) (hc : c ∈ g.dependencyComponents)
    {first second : String × Int} (hfirst : first ∈ g.closingRegisters c)
    (hsecond : second ∈ g.closingRegisters c) :
    g.Tangled c first second (g.tangle c first second) := by
  obtain ⟨read₁, hread₁, hmem₁⟩ := exists_read hg hfirst
  obtain ⟨read₂, hread₂, hmem₂⟩ := exists_read hg hsecond
  have hw₁ := ((mem_closingRegisters_iff hg).mp hfirst).1
  have hw₂ := ((mem_closingRegisters_iff hg).mp hsecond).1
  obtain ⟨path₁, hpath₁⟩ := exists_shortestPath hg h hc hmem₁ hw₂
  obtain ⟨path₂, hpath₂⟩ := exists_shortestPath hg h hc hmem₂ hw₁
  rw [Tangled]
  refine ⟨read₁, read₂, path₁, path₂, hread₁, hread₂, hpath₁, hpath₂, ?_⟩
  simp only [tangle, walk, hread₁, hread₂, Option.getD_some, hpath₁, hpath₂]

/-! ## Loops -/

/-- The feedback loop of a component. -/
structure IsLoopOf (g : Graph) (c : List Int) (loop : FeedbackLoop) : Prop where
  /-- One register closes the component. -/
  closing : g.closingRegisters c = [(loop.register, loop.write)]
  /-- The nodes are those of the component, in the order of operations. -/
  nodes : loop.nodes = g.readyOrder.filter (c.contains ·)
  /-- The reads are those in the component. -/
  reads : loop.reads = (g.reads (.str loop.register)).filter (c.contains ·)

namespace IsLoopOf

variable {loop : FeedbackLoop} {id : Int}

theorem write_mem (hg : g.Coherent) (h : g.IsLoopOf c loop) :
    loop.write ∈ c ∧ loop.write ∈ g.writes (.str loop.register) := by
  have hclosing : (loop.register, loop.write) ∈ g.closingRegisters c := by simp [h.closing]
  obtain ⟨hmem, hwrite, -⟩ := (mem_closingRegisters_iff hg).mp hclosing
  exact ⟨hmem, hwrite⟩

theorem mem_reads_iff (h : g.IsLoopOf c loop) :
    id ∈ loop.reads ↔ id ∈ g.reads (.str loop.register) ∧ id ∈ c := by
  rw [h.reads, List.mem_filter, List.contains_iff_mem]

theorem exists_mem_reads (hg : g.Coherent) (h : g.IsLoopOf c loop) : ∃ read, read ∈ loop.reads := by
  have hclosing : (loop.register, loop.write) ∈ g.closingRegisters c := by simp [h.closing]
  obtain ⟨-, -, read, hread, hmem⟩ := (mem_closingRegisters_iff hg).mp hclosing
  exact ⟨read, h.mem_reads_iff.mpr ⟨hread, hmem⟩⟩

theorem mem_nodes_iff (hg : g.Coherent) (hlegal : g.Legal) (hc : c ∈ g.dependencyComponents)
    (h : g.IsLoopOf c loop) : id ∈ loop.nodes ↔ id ∈ c := by
  rw [h.nodes, List.mem_filter, List.contains_iff_mem, and_iff_right_iff_imp]
  intro hid
  exact hlegal.mem_readyOrder hg (mem_ids_of_mem_component hg hc hid)

/-- A dependency inside a loop is an operand, or leads from a read to the write. -/
theorem mem_operands_or_mem_reads (hg : g.Coherent) (hwell : g.WellFormed) (h : g.IsLoopOf c loop)
    {x y : Int} (hx : x ∈ c) (hy : y ∈ (g.dependencies x).filter (c.contains ·)) :
    y ∈ g.operands x ∨ x ∈ loop.reads ∧ y = loop.write := by
  obtain ⟨hdep, hyc⟩ := List.mem_filter.mp hy
  cases (hwell.mem_dependencies_iff hg).mp hdep with
  | operand ho => exact Or.inl ho
  | @register name' _ _ hread hwrite =>
    right
    have hclosing : (name', y) ∈ g.closingRegisters c :=
      (mem_closingRegisters_iff hg).mpr ⟨List.contains_iff_mem.mp hyc, hwrite, x, hread, hx⟩
    rw [h.closing, List.mem_singleton] at hclosing
    cases hclosing
    exact ⟨h.mem_reads_iff.mpr ⟨hread, hx⟩, rfl⟩

/-- Another register that a node of the loop reads would close the component as well. -/
theorem mem_reads_of_mem (hg : g.Coherent) (hlegal : g.Legal) (hc : c ∈ g.dependencyComponents)
    (h : g.IsLoopOf c loop) (hid : id ∈ c) (hread : id ∈ g.reads (.str name)) :
    id ∈ loop.reads := by
  have hdecompose := dependencies_decompose hg
  obtain ⟨hwrite, hmem⟩ := h.write_mem hg
  have hreach := hdecompose.reaches_inside hc hid hwrite
  rcases hreach.cases_head with heq | ⟨d, hd, -⟩
  · exact absurd heq (hg.ne_of_mem_reads_of_mem_writes hread hmem)
  · rcases h.mem_operands_or_mem_reads hg hlegal.toWellFormed hid hd with ho | ⟨hmem, -⟩
    · rw [hlegal.operands_read hg hread] at ho
      cases ho
    · exact hmem

theorem unique {loop' : FeedbackLoop} (h : g.IsLoopOf c loop) (h' : g.IsLoopOf c loop') :
    loop = loop' := by
  have hclosing := h'.closing
  rw [h.closing, List.cons.injEq, Prod.mk.injEq] at hclosing
  obtain ⟨⟨hregister, hwrite⟩, -⟩ := hclosing
  have hnodes : loop.nodes = loop'.nodes := h.nodes.trans h'.nodes.symm
  have hreads : loop.reads = loop'.reads := by rw [h.reads, h'.reads, hregister]
  cases loop
  cases loop'
  simp_all

theorem length_ne_one (hg : g.Coherent) (h : g.IsLoopOf c loop) : c.length ≠ 1 := by
  intro hone
  have hclosing := h.closing
  rw [closingRegisters_of_length_eq_one hg hone] at hclosing
  cases hclosing

/-- A register has one loop at most. -/
theorem eq_of_register_eq (hg : g.Coherent) (hlegal : g.Legal) {d : List Int}
    {loop' : FeedbackLoop} (hc : c ∈ g.dependencyComponents) (hd : d ∈ g.dependencyComponents)
    (h : g.IsLoopOf c loop) (h' : g.IsLoopOf d loop') (heq : loop.register = loop'.register) :
    c = d := by
  obtain ⟨hmem, hwrite⟩ := h.write_mem hg
  obtain ⟨hmem', hwrite'⟩ := h'.write_mem hg
  rw [heq, hlegal.writes_eq hg hwrite', List.mem_singleton] at hwrite
  exact (dependencies_decompose hg).eq_of_mem hc hd hmem (hwrite ▸ hmem')

end IsLoopOf

/-- What validation makes of a component: it has one node, or one register closes it, or several
registers do. -/
theorem feedbackLoop_cases (hg : g.Coherent) (h : g.WellFormed) (hacyclic : g.Acyclic)
    (hc : c ∈ g.dependencyComponents) :
    (c.length = 1 ∧ g.feedbackLoop g.readyOrder c = .ok none) ∨
    (c.length ≠ 1 ∧ ∃ loop, g.IsLoopOf c loop ∧ g.feedbackLoop g.readyOrder c = .ok (some loop)) ∨
    ∃ first second rest, g.closingRegisters c = first :: second :: rest ∧
      g.feedbackLoop g.readyOrder c = .error
        (.tangled ((first :: second :: rest).map (·.1)) (g.tangle c first second)) := by
  by_cases hlength : c.length = 1
  · exact Or.inl ⟨hlength, if_pos hlength⟩
  right
  simp only [feedbackLoop, if_neg hlength]
  rcases hclosing : g.closingRegisters c with _ | ⟨⟨register, write⟩, _ | ⟨second, rest⟩⟩
  · exact absurd hclosing (closingRegisters_ne_nil hg h hacyclic hc hlength)
  · exact Or.inl ⟨hlength, _, ⟨hclosing, rfl, rfl⟩, rfl⟩
  · exact Or.inr ⟨(register, write), second, rest, rfl, rfl⟩

/-- A component that validation refuses is closed by several registers. -/
theorem tangled_of_feedbackLoop (hg : g.Coherent) (h : g.WellFormed) (hacyclic : g.Acyclic)
    (hc : c ∈ g.dependencyComponents) {fault : Malformed}
    (hfault : g.feedbackLoop g.readyOrder c = .error fault) :
    ∃ first second rest, g.closingRegisters c = first :: second :: rest ∧
      fault = .tangled ((first :: second :: rest).map (·.1)) (g.tangle c first second) := by
  rcases feedbackLoop_cases hg h hacyclic hc with
    ⟨-, hok⟩ | ⟨-, loop, -, hok⟩ | ⟨first, second, rest, hclosing, htangled⟩
  · rw [hfault] at hok
    cases hok
  · rw [hfault] at hok
    cases hok
  · rw [hfault, Except.error.injEq] at htangled
    exact ⟨first, second, rest, hclosing, htangled⟩

/-- In a legal graph a component of several nodes is a loop. -/
theorem exists_isLoopOf (hg : g.Coherent) (hlegal : g.Legal) (hc : c ∈ g.dependencyComponents)
    (hlength : c.length ≠ 1) : ∃ loop, g.IsLoopOf c loop := by
  rcases feedbackLoop_cases hg hlegal.toWellFormed hlegal.acyclic hc with
    ⟨hone, -⟩ | ⟨-, loop, hloop, -⟩ | ⟨first, second, rest, hclosing, -⟩
  · exact absurd hone hlength
  · exact ⟨loop, hloop⟩
  · have hmost := (untangled_iff hg hlegal.toWellFormed).mp hlegal.untangled c hc
    rw [hclosing, List.length_cons, List.length_cons] at hmost
    omega

end Datapath.Graph
