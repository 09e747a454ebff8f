import Datapath.Depth
import Datapath.Proofs.Graph.Validation
import Mathlib.Algebra.Order.BigOperators.Group.List

/-!
# Depths are longest paths

One pass in the order of operations gives every node a path of operands that ends at it and weighs
as much as any. A path into a node is the node alone or continues a path into one of its operands,
so a deepest operand is enough to know; weights are not negative, so the node alone is never better.

A finding is about the path into a register write or an output. Which nodes get one follows from the
weights of all paths.
-/

namespace Datapath

/-! ## Paths -/

namespace Graph

variable {g : Graph} {n : Node} {weight : Kind → Int} {path : List Int} {id : Int}

/-- Nodes of which each is an operand of the next. -/
structure OperandPath (g : Graph) (path : List Int) : Prop where
  /-- All of them are nodes. -/
  nodes : ∀ id ∈ path, id ∈ g.ids
  linked : path.IsChain fun a b ↦ a ∈ g.operands b

/-- The total weight of some nodes. -/
def pathWeight (g : Graph) (weight : Kind → Int) (path : List Int) : Int :=
  (path.map fun id ↦ weight (g.kindOf id)).sum

theorem Coherent.kindOf_id (hg : g.Coherent) (hn : n ∈ g.nodes) : g.kindOf n.id = n.kind := by
  rw [kindOf, hg.node?_id hn, Option.map_some, Option.getD_some]

theorem pathWeight_concat (g : Graph) (weight : Kind → Int) (path : List Int) (id : Int) :
    g.pathWeight weight (path ++ [id]) = g.pathWeight weight path + weight (g.kindOf id) := by
  rw [pathWeight, List.map_append, List.sum_append, List.map_singleton, List.sum_singleton,
    ← pathWeight]

private theorem pathWeight_nonneg (hweight : ∀ k, 0 ≤ weight k) (path : List Int) :
    0 ≤ g.pathWeight weight path := by
  refine List.sum_nonneg fun w hw ↦ ?_
  obtain ⟨id, -, rfl⟩ := List.mem_map.mp hw
  exact hweight _

theorem operandPath_concat_iff : g.OperandPath (path ++ [id]) ↔
    id ∈ g.ids ∧ (path = [] ∨ g.OperandPath path ∧ ∃ o, path.getLast? = some o ∧
      o ∈ g.operands id) := by
  constructor
  · rintro ⟨hnodes, hlinked⟩
    rw [List.forall_mem_append, List.forall_mem_singleton] at hnodes
    refine ⟨hnodes.2, ?_⟩
    by_cases hnil : path = []
    · exact Or.inl hnil
    · obtain ⟨o, ho⟩ := Option.isSome_iff_exists.mp (List.getLast?_isSome.mpr hnil)
      obtain ⟨hpath, -, hlast⟩ := List.isChain_append.mp hlinked
      exact Or.inr ⟨⟨hnodes.1, hpath⟩, o, ho, hlast o ho id rfl⟩
  · rintro ⟨hid, rfl | ⟨hpath, o, ho, hlink⟩⟩
    · exact ⟨by simpa using hid, List.isChain_singleton id⟩
    · refine ⟨?_, List.isChain_append.mpr ⟨hpath.linked, List.isChain_singleton id, ?_⟩⟩
      · rw [List.forall_mem_append, List.forall_mem_singleton]
        exact ⟨hpath.nodes, hid⟩
      · intro x hx y hy
        rw [ho, Option.mem_some_iff] at hx
        rw [List.head?_cons, Option.mem_some_iff] at hy
        rwa [← hx, ← hy]

end Graph

theorem WeightTable.weight_nonneg (t : WeightTable) (k : Kind) : 0 ≤ t.weight k := by
  have hnone : ∀ entry ∈ t.weights, ¬ entry.2 < 0 := by
    have h := t.nonneg
    rw [negativeKinds, List.map_eq_nil_iff, List.filter_eq_nil_iff] at h
    simpa using h
  rw [weight]
  cases hlookup : t.weights.lookup k with
  | none => exact le_rfl
  | some w =>
    obtain ⟨before, after, heq, -⟩ := List.lookup_eq_some_iff.mp hlookup
    exact Int.not_lt.mp (hnone (k, w) (by simp [heq]))

namespace Depth

variable {g : Graph} {n : Node} {weight : Kind → Int} {id : Int}
  {records : List (DepthRecordOf Int)} {record best : DepthRecordOf Int}
  {found : List (Int × DepthRecordOf Int)} {order : List Int}

/-! ## Records -/

/-- A record shows a path into a node that weighs as much as any. -/
structure Deepest (g : Graph) (weight : Kind → Int) (id : Int) (record : DepthRecordOf Int) :
    Prop where
  /-- The chain is a path. -/
  path : g.OperandPath record.chain
  /-- It ends at the node. -/
  last : record.chain.getLast? = some id
  /-- The depth is its weight. -/
  depth : g.pathWeight weight record.chain = record.depth
  /-- No path into the node weighs more. -/
  greatest : ∀ path, g.OperandPath path → path.getLast? = some id →
    g.pathWeight weight path ≤ record.depth

/-- Of several deepest records the first is taken: those before it are less deep, and those after it
not deeper. -/
theorem deepest?_eq_some (h : deepest? records = some best) :
    ∃ earlier later, records = earlier ++ best :: later ∧
      (∀ r ∈ earlier, r.depth < best.depth) ∧ ∀ r ∈ later, r.depth ≤ best.depth := by
  cases records with
  | nil => cases h
  | cons first rest =>
    cases h
    induction rest generalizing first with
    | nil => exact ⟨[], [], rfl, by simp, by simp⟩
    | cons next rest ih =>
      rw [List.foldl_cons]
      by_cases hless : first.depth < next.depth
      · rw [if_pos hless]
        obtain ⟨earlier, later, heq, hearlier, hlater⟩ := ih next
        refine ⟨first :: earlier, later, congrArg (first :: ·) heq,
          List.forall_mem_cons.mpr ⟨?_, hearlier⟩, hlater⟩
        -- the next record is deeper than the first, and the result is at least as deep
        have hmem : next ∈ next :: rest := List.mem_cons_self
        rw [heq, List.mem_append, List.mem_cons] at hmem
        rcases hmem with hnext | hnext | hnext
        · exact hless.trans (hearlier next hnext)
        · exact hnext ▸ hless
        · exact hless.trans_le (hlater next hnext)
      · rw [if_neg hless]
        obtain ⟨earlier, later, heq, hearlier, hlater⟩ := ih first
        have hle := Int.not_lt.mp hless
        cases earlier with
        | nil =>
          obtain ⟨hbest, rfl⟩ := List.cons_eq_cons.mp heq
          rw [← hbest] at hlater ⊢
          exact ⟨[], next :: rest, rfl, by simp, List.forall_mem_cons.mpr ⟨hle, hlater⟩⟩
        | cons _ earlier =>
          obtain ⟨rfl, hrest⟩ := List.cons_eq_cons.mp heq
          obtain ⟨hfirst, hearlier⟩ := List.forall_mem_cons.mp hearlier
          exact ⟨first :: next :: earlier, later, congrArg (first :: next :: ·) hrest,
            List.forall_mem_cons.mpr ⟨hfirst, List.forall_mem_cons.mpr
              ⟨hle.trans_lt hfirst, hearlier⟩⟩, hlater⟩

theorem deepest?_spec (h : deepest? records = some best) :
    best ∈ records ∧ ∀ r ∈ records, r.depth ≤ best.depth := by
  obtain ⟨earlier, later, rfl, hearlier, hlater⟩ := deepest?_eq_some h
  refine ⟨by simp, List.forall_mem_append.mpr ⟨fun r hr ↦ (hearlier r hr).le, ?_⟩⟩
  exact List.forall_mem_cons.mpr ⟨le_rfl, hlater⟩

theorem deepest?_eq_none_iff : deepest? records = none ↔ records = [] := by
  cases records <;> simp [deepest?]

/-- The record of a node is right if those of its operands are. -/
theorem deepest_extend (hg : g.Coherent) (hweight : ∀ k, 0 ≤ weight k) (hn : n ∈ g.nodes)
    (h : List.Forall₂ (fun o r ↦ Deepest g weight o r) n.operands records) :
    Deepest g weight n.id (extend weight n records) := by
  have hid : n.id ∈ g.ids := Graph.mem_ids_of_mem_nodes hn
  have hkind := hg.kindOf_id hn
  rw [extend]
  cases hbest : deepest? records with
  | none =>
    rw [deepest?_eq_none_iff] at hbest
    subst hbest
    have hnone : g.operands n.id = [] := by
      rw [hg.operands_id hn, List.forall₂_nil_right_iff.mp h]
    refine ⟨?_, rfl, ?_, ?_⟩
    · have hsingle : g.OperandPath ([] ++ [n.id]) :=
        Graph.operandPath_concat_iff.mpr ⟨hid, Or.inl rfl⟩
      exact hsingle
    · simp [Graph.pathWeight, hkind]
    · intro path hpath hlast
      obtain ⟨init, rfl⟩ := List.getLast?_eq_some_iff.mp hlast
      rcases (Graph.operandPath_concat_iff.mp hpath).2 with rfl | ⟨-, o, -, ho⟩
      · simp [Graph.pathWeight, hkind]
      · rw [hnone] at ho
        cases ho
  | some best =>
    obtain ⟨hmem, hmax⟩ := deepest?_spec hbest
    obtain ⟨o, ho, hdeepest⟩ := Outcome.exists_mem_of_forall₂ h.flip hmem
    refine ⟨?_, List.getLast?_concat, ?_, ?_⟩
    · refine Graph.operandPath_concat_iff.mpr ⟨hid, Or.inr ⟨hdeepest.path, o, hdeepest.last, ?_⟩⟩
      rwa [hg.operands_id hn]
    · rw [Graph.pathWeight_concat, hdeepest.depth, hkind]
    · intro path hpath hlast
      obtain ⟨init, rfl⟩ := List.getLast?_eq_some_iff.mp hlast
      rw [Graph.pathWeight_concat, hkind]
      refine Int.add_le_add_right ?_ _
      rcases (Graph.operandPath_concat_iff.mp hpath).2 with rfl | ⟨hinit, o', hlast', ho'⟩
      · rw [← hdeepest.depth]
        exact Graph.pathWeight_nonneg hweight _
      · rw [hg.operands_id hn] at ho'
        obtain ⟨r, hr, hdeepest'⟩ := Outcome.exists_mem_of_forall₂ h ho'
        exact (hdeepest'.greatest init hinit hlast').trans (hmax r hr)

theorem lookup_eq_ok : lookup found id = .ok record ↔ found.lookup id = some record := by
  rw [lookup]
  cases found.lookup id <;> simp

/-- The last node of an order gets its record from those of the nodes before it. -/
theorem records_concat_iff {found' : List (Int × DepthRecordOf Int)} :
    Depth.records g weight (order ++ [id]) = .ok found' ↔
      ∃ found n operands, Depth.records g weight order = .ok found ∧ g.node? id = some n ∧
        n.operands.mapM (lookup found) = .ok operands ∧
        found' = found ++ [(id, extend weight n operands)] := by
  rw [Depth.records, List.foldlM_append, Outcome.bind_eq_ok]
  refine exists_congr fun found ↦ ?_
  rw [List.foldlM_cons, Outcome.bind_eq_ok]
  cases g.node? id with
  | none => simp
  | some n =>
    constructor
    · rintro ⟨hfound, next, hnext, hrest⟩
      obtain ⟨operands, hoperands, heq⟩ := Outcome.bind_eq_ok.mp hnext
      cases heq
      cases hrest
      exact ⟨n, operands, hfound, rfl, hoperands, rfl⟩
    · rintro ⟨_, operands, hfound, heq, hoperands, rfl⟩
      cases heq
      exact ⟨hfound, _, Outcome.bind_eq_ok.mpr ⟨operands, hoperands, rfl⟩, rfl⟩

theorem lookup_concat {o : Int} {new : DepthRecordOf Int}
    (h : (found ++ [(id, new)]).lookup o = some record) :
    found.lookup o = some record ∨ o = id ∧ record = new := by
  rw [List.lookup_append] at h
  cases hold : found.lookup o with
  | some r =>
    rw [hold] at h
    exact Or.inl h
  | none =>
    rw [hold, Option.none_or, List.lookup_cons] at h
    split at h
    case h_1 heq =>
      cases h
      exact Or.inr ⟨beq_iff_eq.mp heq, rfl⟩
    case h_2 => cases h

theorem deepest_of_records (hg : g.Coherent) (hweight : ∀ k, 0 ≤ weight k)
    (h : Depth.records g weight order = .ok found) :
    ∀ id record, found.lookup id = some record → Deepest g weight id record := by
  induction order using List.reverseRecOn generalizing found with
  | nil =>
    cases h
    rintro id record ⟨⟩
  | append_singleton order id ih =>
    obtain ⟨found, n, operands, hfound, hnode, hoperands, rfl⟩ := records_concat_iff.mp h
    obtain ⟨hn, rfl⟩ := Graph.mem_nodes_of_node?_eq_some hnode
    intro o record hrecord
    rcases lookup_concat hrecord with hold | ⟨rfl, rfl⟩
    · exact ih hfound o record hold
    · refine deepest_extend hg hweight hn ((Outcome.mapM_eq_ok.mp hoperands).imp fun o r hr ↦ ?_)
      exact ih hfound o r (lookup_eq_ok.mp hr)

/-! ## Findings -/

/-- Some path into a node weighs more than a threshold. -/
def Exceeds (g : Graph) (weight : Kind → Int) (threshold : Int) (id : Int) : Prop :=
  ∃ path, g.OperandPath path ∧ path.getLast? = some id ∧ threshold < g.pathWeight weight path

private theorem Deepest.exceeds_iff {threshold : Int} (h : Deepest g weight id record) :
    Exceeds g weight threshold id ↔ threshold < record.depth := by
  constructor
  · rintro ⟨path, hpath, hlast, hless⟩
    exact hless.trans_le (h.greatest path hpath hlast)
  · intro hless
    exact ⟨record.chain, h.path, h.last, by rwa [h.depth]⟩

theorem forall₂_report {paths : List (PathReportOf Int)} (hg : g.Coherent)
    (hweight : ∀ k, 0 ≤ weight k) (hfound : Depth.records g weight order = .ok found)
    (hpaths : g.terminals.mapM (report g found) = .ok paths) :
    List.Forall₂ (fun n p ↦ p.chain.getLast? = some n.id ∧
        ∀ threshold, Exceeds g weight threshold n.id ↔ p.exceeds threshold = true)
      (g.nodes.filter (·.kind.isTerminal)) paths := by
  have hall := Outcome.mapM_eq_ok.mp hpaths
  rw [Graph.terminals, List.forall₂_map_left_iff] at hall
  refine hall.imp fun n p hreport ↦ ?_
  obtain ⟨record, hrecord, hreport⟩ := Outcome.bind_eq_ok.mp hreport
  cases hreport
  have hdeepest := deepest_of_records hg hweight hfound n.id record (lookup_eq_ok.mp hrecord)
  refine ⟨hdeepest.last, fun threshold ↦ ?_⟩
  rw [hdeepest.exceeds_iff, PathReportOf.exceeds, decide_eq_true_eq]

open Classical in
/-- The terminals into which some path weighs more than a threshold, in node order. -/
noncomputable def flagged (g : Graph) (weight : Kind → Int) (threshold : Int) : List Node :=
  (g.nodes.filter (·.kind.isTerminal)).filter fun n ↦ Exceeds g weight threshold n.id

theorem mem_flagged_iff {threshold : Int} : n ∈ flagged g weight threshold ↔
    n ∈ g.nodes ∧ n.kind.isTerminal = true ∧ Exceeds g weight threshold n.id := by
  classical
  rw [flagged, List.mem_filter, List.mem_filter, decide_eq_true_eq, and_assoc]

theorem flagged_sublist (g : Graph) (weight : Kind → Int) (threshold : Int) :
    (flagged g weight threshold).Sublist g.nodes :=
  List.filter_sublist.trans List.filter_sublist

theorem findings_eq_flagged {threshold : Int} {d : Display Int} {severity : Severity}
    {result : DepthResult} (hg : g.Coherent) (hweight : ∀ k, 0 ≤ weight k)
    (h : measure g order weight threshold d severity = .ok result) :
    result.diagnostics.map (·.nodes.getLast?) =
      (flagged g weight threshold).map (some <| d.node ·.id) := by
  classical
  obtain ⟨found, hfound, h⟩ := Outcome.bind_eq_ok.mp h
  obtain ⟨paths, hpaths, h⟩ := Outcome.bind_eq_ok.mp h
  cases h
  have hall := forall₂_report hg hweight hfound hpaths
  -- Filtering both sides alike keeps each flagged terminal with its report.
  have hflagged := List.rel_filter (p := fun n : Node ↦ decide (Exceeds g weight threshold n.id))
    (q := fun p : PathReportOf Int ↦ p.exceeds threshold)
    (fun n p hp ↦ by simpa using hp.2 threshold) hall
  rw [List.map_map, ← List.forall₂_eq_eq_eq, List.forall₂_map_left_iff,
    List.forall₂_map_right_iff]
  refine hflagged.flip.imp fun p n hp ↦ ?_
  rw [Function.comp_apply, diagnose, List.getLast?_map, hp.1]
  rfl

/-- The findings are about the terminals into which some path weighs too much, once each and in
order. -/
theorem findings_of_measure {threshold : Int} {d : Display Int} {severity : Severity}
    {result : DepthResult} (hg : g.Coherent) (hweight : ∀ k, 0 ≤ weight k)
    (h : measure g order weight threshold d severity = .ok result) :
    ∃ flagged : List Node, flagged.Sublist g.nodes ∧
      (∀ n, n ∈ flagged ↔ n ∈ g.nodes ∧ n.kind.isTerminal = true ∧
        Exceeds g weight threshold n.id) ∧
      result.diagnostics.map (·.nodes.getLast?) = flagged.map (some <| d.node ·.id) :=
  ⟨flagged g weight threshold, flagged_sublist g weight threshold, fun _ ↦ mem_flagged_iff,
    findings_eq_flagged hg hweight h⟩

theorem isDepthViolation_of_measure {threshold : Int} {d : Display Int} {severity : Severity}
    {result : DepthResult} (h : measure g order weight threshold d severity = .ok result) :
    ∀ f ∈ result.diagnostics, f.isDepthViolation = true := by
  obtain ⟨found, -, h⟩ := Outcome.bind_eq_ok.mp h
  obtain ⟨paths, -, h⟩ := Outcome.bind_eq_ok.mp h
  cases h
  intro f hf
  obtain ⟨p, -, rfl⟩ := List.mem_map.mp hf
  change (Diagnostic.depthThresholdExceeded == Diagnostic.depthThresholdExceeded) = true
  decide

end Depth

namespace Graph

variable {g g' : Graph} {w : WeightTable} {threshold : Int} {severity : Severity}
  {result : DepthResult}

theorem measureDepth_eq_ok (h : g.measureDepth w threshold severity = .ok result) :
    ∃ layout, g.layout = .ok layout ∧ Depth.measure g layout.order w.weight threshold
      (Depth.display g threshold) severity = .ok result := by
  rw [measureDepth] at h
  split at h
  · cases h
  · obtain ⟨layout, hlayout, h⟩ := Outcome.bind_eq_ok.mp h
    exact ⟨layout, Outcome.mapError_eq_ok.mp hlayout, Outcome.mapError_eq_ok.mp h⟩

theorem measureDepth_of_validate (h : g.validate = .ok g') (w : WeightTable) (threshold : Int)
    (severity : Severity) :
    g'.measureDepth w threshold severity = g.measureDepth w threshold severity := by
  rw [measureDepth, measureDepth, layout_of_validate h]
  obtain ⟨layout, -, rfl⟩ := validate_eq_ok h
  rfl

end Graph

end Datapath
