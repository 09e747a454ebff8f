import Datapath.Proofs.Graph.Validation

/-!
# Feedback loops are operand paths

A layout finds its loops among the components of the dependencies, where a read also depends on the
write of its register. This module describes them by operands alone: a register has a loop exactly
when its write depends on one of its reads through operands, and the nodes of the loop are those on
the operand paths between the two.

## From components to paths

Inside the component of a loop every dependency is an operand, apart from those of the reads on the
write, because any other register that is written and read there would close the component as well.
So a walk inside the component can only leave the operands at the write. What is walked after the
last such place shows that the write depends on a node through operands, and what is walked before
the first one that the node depends on a read.
-/

namespace Datapath.Graph

open Datapath.Digraph Relation

variable {g : Graph} {layout : Layout} {c : List Int} {loop : FeedbackLoop} {name : String}
  {id : Int}

/-! ## Paths inside a component -/

theorem reaches_of_reaches_operands (hg : g.Coherent) (h : g.WellFormed) {x y : Int}
    (hxy : Reaches g.operands x y) : Reaches g.dependencies x y :=
  ReflTransGen.mono (fun _ _ ho ↦ (h.mem_dependencies_iff hg).mpr (.operand ho)) x y hxy

namespace IsLoopOf

/-- The write depends on every node of the loop through operands. -/
theorem reaches_of_write (hg : g.Coherent) (h : g.WellFormed) (hc : c ∈ g.dependencyComponents)
    (hloop : g.IsLoopOf c loop) (hid : id ∈ c) : Reaches g.operands loop.write id := by
  obtain ⟨hwrite, -⟩ := hloop.write_mem hg
  have hwalk := (dependencies_decompose hg).reaches_inside hc hwrite hid
  -- a step along a register starts the path anew, at the write
  have hinside : id ∈ c ∧ Reaches g.operands loop.write id := by
    clear hid
    induction hwalk with
    | refl => exact ⟨hwrite, ReflTransGen.refl⟩
    | tail _ hstep ih =>
      refine ⟨List.contains_iff_mem.mp (List.mem_filter.mp hstep).2, ?_⟩
      rcases hloop.mem_operands_or_mem_reads hg h ih.1 hstep with ho | ⟨-, rfl⟩
      · exact ih.2.tail ho
      · exact ReflTransGen.refl
  exact hinside.2

/-- Every node of the loop depends on one of the reads through operands. -/
theorem exists_reaches_read (hg : g.Coherent) (h : g.WellFormed) (hc : c ∈ g.dependencyComponents)
    (hloop : g.IsLoopOf c loop) (hid : id ∈ c) :
    ∃ read ∈ loop.reads, Reaches g.operands id read := by
  obtain ⟨hwrite, -⟩ := hloop.write_mem hg
  have hwalk := (dependencies_decompose hg).reaches_inside hc hid hwrite
  induction hwalk using ReflTransGen.head_induction_on with
  | refl =>
    obtain ⟨read, hread⟩ := hloop.exists_mem_reads hg
    exact ⟨read, hread, hloop.reaches_of_write hg h hc (hloop.mem_reads_iff.mp hread).2⟩
  | @head x y hstep _ ih =>
    -- the first step along a register leaves from a read
    rcases hloop.mem_operands_or_mem_reads hg h hid hstep with ho | ⟨hread, -⟩
    · obtain ⟨read, hread, hreach⟩ := ih (List.contains_iff_mem.mp (List.mem_filter.mp hstep).2)
      exact ⟨read, hread, hreach.head ho⟩
    · exact ⟨x, hread, ReflTransGen.refl⟩

end IsLoopOf

/-- What lies on an operand path from a read to the write of its register lies in the component of
the write. -/
theorem mem_component_of_path (hg : g.Coherent) (h : g.WellFormed) (hc : c ∈ g.dependencyComponents)
    {write read : Int} (hwritec : write ∈ c) (hwrite : write ∈ g.writes (.str name))
    (hread : read ∈ g.reads (.str name)) (hto : Reaches g.operands write id)
    (hfrom : Reaches g.operands id read) : id ∈ c := by
  have hback : write ∈ g.dependencies read :=
    (h.mem_dependencies_iff hg).mpr (.register hread hwrite)
  exact (dependencies_decompose hg).mem_of_reaches hc hwritec (reaches_of_reaches_operands hg h hto)
    ((reaches_of_reaches_operands hg h hfrom).tail hback)

/-! ## Loops by operands -/

/-- A loop is made of the operand paths from reads of its register to the write. -/
structure OperandLoop (g : Graph) (loop : FeedbackLoop) : Prop where
  writes : g.writes (.str loop.register) = [loop.write]
  nodup : loop.nodes.Nodup
  /-- The nodes are those on a path from a read to the write. -/
  mem_nodes : ∀ id, id ∈ loop.nodes ↔ ∃ read ∈ g.reads (.str loop.register),
    Reaches g.operands loop.write id ∧ Reaches g.operands id read
  /-- Operands come before their consumers. -/
  sorted : ∀ earlier id later, loop.nodes = earlier ++ id :: later →
    ∀ o ∈ g.operands id, o ∈ loop.nodes → o ∈ earlier
  /-- The reads are listed in the order of the nodes of the graph. -/
  reads_sublist : loop.reads.Sublist g.ids
  /-- The reads are those from which a path leads to the write. -/
  mem_reads : ∀ id, id ∈ loop.reads ↔
    id ∈ g.reads (.str loop.register) ∧ Reaches g.operands loop.write id

namespace IsLoopOf

private theorem sorted_nodes (hg : g.Coherent) (hacyclic : g.Acyclic) (hloop : g.IsLoopOf c loop)
    {earlier later : List Int} (heq : loop.nodes = earlier ++ id :: later) {o : Int}
    (ho : o ∈ g.operands id) (hmem : o ∈ loop.nodes) : o ∈ earlier := by
  have hpairwise := (pairwise_readyOrder hg).filter (c.contains ·)
  rw [← hloop.nodes, heq, List.pairwise_append, List.pairwise_cons] at hpairwise
  rw [heq, List.mem_append, List.mem_cons] at hmem
  rcases hmem with hearlier | rfl | hlater
  · exact hearlier
  · exact absurd (TransGen.single ho) (hacyclic o)
  · exact absurd ho (hpairwise.2.1.1 o hlater)

private theorem operandLoop (hg : g.Coherent) (hlegal : g.Legal) (hc : c ∈ g.dependencyComponents)
    (hloop : g.IsLoopOf c loop) : g.OperandLoop loop := by
  have hwell := hlegal.toWellFormed
  obtain ⟨hwritec, hwrite⟩ := hloop.write_mem hg
  refine ⟨hwell.writes_eq hg hwrite, ?_, fun id ↦ ?_, fun earlier id later heq o ↦ ?_, ?_,
    fun id ↦ ?_⟩
  · rw [hloop.nodes]
    exact (nodup_readyOrder hg).filter _
  · rw [hloop.mem_nodes_iff hg hlegal hc]
    constructor
    · intro hid
      obtain ⟨read, hread, hreach⟩ := hloop.exists_reaches_read hg hwell hc hid
      exact ⟨read, (hloop.mem_reads_iff.mp hread).1, hloop.reaches_of_write hg hwell hc hid, hreach⟩
    · rintro ⟨read, hread, hto, hfrom⟩
      exact mem_component_of_path hg hwell hc hwritec hwrite hread hto hfrom
  · exact hloop.sorted_nodes hg hlegal.acyclic heq
  · rw [hloop.reads]
    exact List.filter_sublist.trans (hg.reads_sublist _)
  · rw [hloop.mem_reads_iff]
    refine and_congr_right fun hread ↦ ⟨hloop.reaches_of_write hg hwell hc, fun hto ↦ ?_⟩
    exact mem_component_of_path hg hwell hc hwritec hwrite hread hto ReflTransGen.refl

end IsLoopOf

/-! ## The loops of a layout -/

theorem mem_of_feedbackLoop {order : List Int} (h : g.feedbackLoop order c = .ok (some loop))
    (hid : id ∈ loop.nodes) : id ∈ c := by
  rw [feedbackLoop] at h
  split at h
  case isTrue => cases h
  case isFalse =>
    split at h
    · cases h
    · cases h
      exact List.contains_iff_mem.mp (List.mem_filter.mp hid).2
    · cases h

/-- Loops share no node, because components do not. -/
theorem pairwise_loops (hg : g.Coherent) (h : g.arrange = .ok layout) :
    layout.loops.Pairwise fun a b ↦ a.nodes.Disjoint b.nodes := by
  obtain ⟨order, -, hrest⟩ := Outcome.bind_eq_ok.mp h
  obtain ⟨loops, hloops, hlayout⟩ := Outcome.bind_eq_ok.mp hrest
  cases hlayout
  obtain ⟨found, hfound, rfl⟩ := Outcome.map_eq_ok.mp hloops
  have hcomponents := (List.nodup_flatten.mp (dependencies_decompose hg).nodup).2
  refine List.pairwise_filterMap.mpr (Outcome.pairwise_of_mapM_eq_ok hfound hcomponents ?_)
  rintro c d _ _ hdisjoint hc hd a rfl b rfl id ha hb
  exact hdisjoint (mem_of_feedbackLoop hc ha) (mem_of_feedbackLoop hd hb)

namespace Arranges

/-- A register has a loop exactly when its write depends on one of its reads through operands. -/
theorem mem_registers_iff (hg : g.Coherent) (h : g.WellFormed) (harranges : g.Arranges layout) :
    name ∈ layout.loops.map (·.register) ↔
      ∃ write ∈ g.writes (.str name), ∃ read ∈ g.reads (.str name),
        Reaches g.operands write read := by
  rw [List.mem_map]
  constructor
  · rintro ⟨loop, hmem, rfl⟩
    obtain ⟨c, hc, hloop⟩ := harranges.isLoopOf loop hmem
    obtain ⟨-, hwrite⟩ := hloop.write_mem hg
    obtain ⟨read, hread⟩ := hloop.exists_mem_reads hg
    obtain ⟨hread, hreadc⟩ := hloop.mem_reads_iff.mp hread
    exact ⟨loop.write, hwrite, read, hread, hloop.reaches_of_write hg h hc hreadc⟩
  · rintro ⟨write, hwrite, read, hread, hreach⟩
    obtain ⟨c, hc, hwritec⟩ :=
      (dependencies_decompose hg).exists_mem (hg.mem_ids_of_mem_writes hwrite)
    have hreadc := mem_component_of_path hg h hc hwritec hwrite hread hreach ReflTransGen.refl
    have hclosing : (name, write) ∈ g.closingRegisters c :=
      (mem_closingRegisters_iff hg).mpr ⟨hwritec, hwrite, read, hread, hreadc⟩
    obtain ⟨loop, hmem, hloop⟩ := harranges.exists_loop c hc fun hlength ↦ by
      rw [closingRegisters_of_length_eq_one hg hlength] at hclosing
      cases hclosing
    rw [hloop.closing, List.mem_singleton] at hclosing
    cases hclosing
    exact ⟨loop, hmem, rfl⟩

/-- A register has one loop at most, because two would share its write. -/
theorem nodup_registers (hg : g.Coherent) (hlegal : g.Legal) (harranges : g.Arranges layout)
    (hdisjoint : layout.loops.Pairwise fun a b ↦ a.nodes.Disjoint b.nodes) :
    (layout.loops.map (·.register)).Nodup := by
  have hwrite : ∀ loop ∈ layout.loops,
      loop.write ∈ loop.nodes ∧ g.writes (.str loop.register) = [loop.write] := by
    intro loop hmem
    obtain ⟨c, hc, hloop⟩ := harranges.isLoopOf loop hmem
    obtain ⟨hwritec, hwrite⟩ := hloop.write_mem hg
    exact ⟨(hloop.mem_nodes_iff hg hlegal hc).mpr hwritec, hlegal.writes_eq hg hwrite⟩
  refine List.pairwise_map.mpr (hdisjoint.imp_of_mem fun {a b} ha hb hab heq ↦ ?_)
  obtain ⟨hmem, hwrites⟩ := hwrite a ha
  obtain ⟨hmem', hwrites'⟩ := hwrite b hb
  rw [heq, hwrites', List.cons.injEq] at hwrites
  exact hab hmem (hwrites.1 ▸ hmem')

end Arranges

/-- **The feedback loops are the operand paths from reads to writes.** A register has a loop exactly
when its write depends on one of its reads through operands, and then it has one. The loop consists
of the nodes on the paths between them, and loops of different registers share no node. -/
theorem loops_describe_feedback (h : g.Built) (hlayout : g.layout = .ok layout) :
    (layout.loops.map (·.register)).Nodup ∧
    (∀ name, name ∈ layout.loops.map (·.register) ↔
      ∃ write ∈ g.writes (.str name), ∃ read ∈ g.reads (.str name),
        Reaches g.operands write read) ∧
    (∀ loop ∈ layout.loops, g.OperandLoop loop) ∧
    ∀ a ∈ layout.loops, ∀ b ∈ layout.loops, a.register ≠ b.register → a.nodes.Disjoint b.nodes := by
  have hg := h.coherent
  rw [hg.layout_eq] at hlayout
  obtain ⟨hlegal, harranges⟩ := legal_of_computeLayout hg hlayout
  have hdisjoint := pairwise_loops hg (arrange_of_computeLayout hg hlayout).2
  refine ⟨harranges.nodup_registers hg hlegal hdisjoint,
    fun name ↦ harranges.mem_registers_iff hg hlegal.toWellFormed, fun loop hmem ↦ ?_,
    fun a ha b hb hne ↦ ?_⟩
  · obtain ⟨c, hc, hloop⟩ := harranges.isLoopOf loop hmem
    exact hloop.operandLoop hg hlegal hc
  · have hsymm : Std.Symm fun a b : FeedbackLoop ↦ a.nodes.Disjoint b.nodes :=
      ⟨fun _ _ hab ↦ hab.symm⟩
    exact hdisjoint.forall ha hb fun heq ↦ hne (congrArg _ heq)

/-- A counter whose sum is written to a second register on the way back to the first. Each register
has a read that feeds an output. -/
def tappedCounter : Graph :=
  .ofParts [⟨.regRead (.str "count") none, 0⟩, ⟨.const 1 none, 1⟩, ⟨.binary .add 0 1 none, 2⟩,
    ⟨.regWrite (.str "last") 2 none, 3⟩, ⟨.regRead (.str "count") none, 4⟩,
    ⟨.output 4 none none, 5⟩, ⟨.regWrite (.str "count") 3 none, 6⟩,
    ⟨.regRead (.str "last") none, 7⟩, ⟨.output 7 none none, 8⟩]
    [⟨"count", 0, some 4, false⟩, ⟨"last", 0, none, false⟩]

private theorem tappedCounter_built : tappedCounter.Built := built_of_nodup (by decide) (by decide)

/-- The loop of the counter leads through the write of the other register, which has no loop of its
own, and leaves out the read that feeds the output. -/
theorem tappedCounter_feedback : ∃ layout, tappedCounter.layout = .ok layout ∧
    layout.loops = [⟨"count", [0, 2, 3, 6], [0], 6⟩] ∧
    tappedCounter.OperandLoop ⟨"count", [0, 2, 3, 6], [0], 6⟩ ∧
    ¬ ∃ write ∈ tappedCounter.writes (.str "last"), ∃ read ∈ tappedCounter.reads (.str "last"),
      Reaches tappedCounter.operands write read := by
  obtain ⟨layout, hlayout, hloops⟩ := Outcome.exists_of_any
    (show tappedCounter.layout.toOption.any
      (decide <| ·.loops = [⟨"count", [0, 2, 3, 6], [0], 6⟩]) = true by decide +kernel)
  rw [decide_eq_true_eq] at hloops
  obtain ⟨-, hregisters, hall, -⟩ := loops_describe_feedback tappedCounter_built hlayout
  refine ⟨layout, hlayout, hloops, hall _ (by simp [hloops]), fun hlast ↦ ?_⟩
  have hmem := (hregisters "last").mpr hlast
  rw [hloops] at hmem
  exact absurd hmem (by decide)

end Datapath.Graph
