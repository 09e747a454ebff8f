import Datapath.Proofs.Depth
import Mathlib.Order.Bounds.Basic

/-!
# Chains of deepest operands

The chain of a record is one of many paths that weigh the same. This module says which: it starts at
a node without operands, and every node on it comes after the first of its deepest operands. It also
shows that the pass never misses a record, so that every node of a graph with a layout has one.

## The table grows

Which operand is deepest is read off the table of records. A record is made from the table so far,
but it is described by the finished one, so the description only asks for records that are there:
then it stays true when more are added.
-/

namespace Datapath

namespace Depth

variable {g : Graph} {n : Node} {weight : Kind → Int} {id o : Int} {order operands : List Int}
  {record : DepthRecordOf Int} {records : List (DepthRecordOf Int)}
  {found found' : List (Int × DepthRecordOf Int)}

/-! ## The first deepest operand -/

/-- An operand is the first of the deepest: the operands before it have a smaller depth, and those
after it no greater one. -/
def FirstDeepest (found : List (Int × DepthRecordOf Int)) (operands : List Int) (o : Int) : Prop :=
  ∃ earlier later deepest, operands = earlier ++ o :: later ∧ found.lookup o = some deepest ∧
    (∀ x ∈ earlier, ∃ r, found.lookup x = some r ∧ r.depth < deepest.depth) ∧
    ∀ x ∈ later, ∃ r, found.lookup x = some r ∧ r.depth ≤ deepest.depth

/-- A chain leads from a node without operands through first deepest operands. -/
structure Traced (g : Graph) (found : List (Int × DepthRecordOf Int)) (chain : List Int) :
    Prop where
  /-- It starts at a node without operands. -/
  start : ∃ first, chain.head? = some first ∧ g.operands first = []
  /-- Each node is the first deepest operand of the next. -/
  linked : chain.IsChain fun a b ↦ FirstDeepest found (g.operands b) a

theorem FirstDeepest.mono (hsub : ∀ o r, found.lookup o = some r → found'.lookup o = some r)
    (h : FirstDeepest found operands o) : FirstDeepest found' operands o := by
  obtain ⟨earlier, later, deepest, heq, ho, hearlier, hlater⟩ := h
  refine ⟨earlier, later, deepest, heq, hsub o deepest ho, fun x hx ↦ ?_, fun x hx ↦ ?_⟩
  · obtain ⟨r, hr, hless⟩ := hearlier x hx
    exact ⟨r, hsub x r hr, hless⟩
  · obtain ⟨r, hr, hle⟩ := hlater x hx
    exact ⟨r, hsub x r hr, hle⟩

theorem Traced.mono {chain : List Int}
    (hsub : ∀ o r, found.lookup o = some r → found'.lookup o = some r) (h : Traced g found chain) :
    Traced g found' chain :=
  ⟨h.start, h.linked.imp fun _ _ hlink ↦ hlink.mono hsub⟩

theorem firstDeepest_of_deepest? {best : DepthRecordOf Int}
    (h : List.Forall₂ (fun o r ↦ found.lookup o = some r) operands records)
    (hbest : deepest? records = some best) :
    ∃ o, found.lookup o = some best ∧ FirstDeepest found operands o := by
  obtain ⟨earlier, later, rfl, hearlier, hlater⟩ := deepest?_eq_some hbest
  have hbefore := List.forall₂_take_append _ _ _ h
  obtain ⟨o, after, ho, hafter, heq⟩ :=
    List.forall₂_cons_right_iff.mp (List.forall₂_drop_append _ _ _ h)
  refine ⟨o, ho, operands.take earlier.length, after, best, ?_, ho, fun x hx ↦ ?_, fun x hx ↦ ?_⟩
  · rw [← heq, List.take_append_drop]
  · obtain ⟨r, hr, hlookup⟩ := Outcome.exists_mem_of_forall₂ hbefore hx
    exact ⟨r, hlookup, hearlier r hr⟩
  · obtain ⟨r, hr, hlookup⟩ := Outcome.exists_mem_of_forall₂ hafter hx
    exact ⟨r, hlookup, hlater r hr⟩

/-! ## The pass -/

theorem traced_extend (hg : g.Coherent) (hn : n ∈ g.nodes)
    (hfound : ∀ o r, found.lookup o = some r → r.chain.getLast? = some o ∧ Traced g found r.chain)
    (h : List.Forall₂ (fun o r ↦ found.lookup o = some r) n.operands records) :
    Traced g found (extend weight n records).chain := by
  have hoperands := hg.operands_id hn
  rw [extend]
  cases hbest : deepest? records with
  | none =>
    rw [deepest?_eq_none_iff.mp hbest, List.forall₂_nil_right_iff] at h
    exact ⟨⟨n.id, rfl, hoperands.trans h⟩, List.isChain_singleton n.id⟩
  | some best =>
    obtain ⟨o, ho, hfirst⟩ := firstDeepest_of_deepest? h hbest
    obtain ⟨hlast, ⟨first, hhead, hnone⟩, hlinked⟩ := hfound o best ho
    refine ⟨⟨first, ?_, hnone⟩, List.isChain_append.mpr ⟨hlinked, List.isChain_singleton n.id, ?_⟩⟩
    · rw [List.head?_append, hhead, Option.some_or]
    · intro a ha b hb
      rw [hlast, Option.mem_some_iff] at ha
      rw [List.head?_cons, Option.mem_some_iff] at hb
      rw [← ha, ← hb, hoperands]
      exact hfirst

theorem traced_of_records (hg : g.Coherent) (hweight : ∀ k, 0 ≤ weight k)
    (h : Depth.records g weight order = .ok found) :
    ∀ id record, found.lookup id = some record → Traced g found record.chain := by
  induction order using List.reverseRecOn generalizing found with
  | nil =>
    cases h
    rintro id record ⟨⟩
  | append_singleton order id ih =>
    obtain ⟨found, n, operands, hfound, hnode, hoperands, rfl⟩ := records_concat_iff.mp h
    have hsub : ∀ o r, found.lookup o = some r →
        (found ++ [(id, extend weight n operands)]).lookup o = some r := by
      intro o r hr
      rw [List.lookup_append, hr, Option.some_or]
    intro o record hrecord
    rcases lookup_concat hrecord with hold | ⟨-, rfl⟩
    · exact (ih hfound o record hold).mono hsub
    · -- the new chain continues an old one, so it is traced in the old table already
      refine (traced_extend hg (Graph.mem_nodes_of_node?_eq_some hnode).1 (fun o r hr ↦ ?_)
        ((Outcome.mapM_eq_ok.mp hoperands).imp fun _ _ ↦ lookup_eq_ok.mp)).mono hsub
      exact ⟨(deepest_of_records hg hweight hfound o r hr).last, ih hfound o r hr⟩

theorem exists_records (hg : g.Coherent) (weight : Kind → Int) (hnodes : ∀ id ∈ order, id ∈ g.ids)
    (hsorted : ∀ earlier id later, order = earlier ++ id :: later →
      ∀ o ∈ g.operands id, o ∈ earlier) :
    ∃ found, Depth.records g weight order = .ok found ∧
      ∀ id ∈ order, ∃ record, found.lookup id = some record := by
  induction order using List.reverseRecOn with
  | nil => exact ⟨[], rfl, by simp⟩
  | append_singleton order id ih =>
    rw [List.forall_mem_append, List.forall_mem_singleton] at hnodes
    obtain ⟨hnodes, hid⟩ := hnodes
    obtain ⟨found, hfound, hall⟩ := ih hnodes fun earlier x later heq ↦
      hsorted earlier x (later ++ [id]) (by rw [heq, List.append_assoc, List.cons_append])
    obtain ⟨n, hn, rfl⟩ := List.mem_map.mp hid
    obtain ⟨operands, hoperands⟩ : ∃ operands, n.operands.mapM (lookup found) = .ok operands := by
      refine Outcome.exists_mapM_eq_ok fun o ho ↦ ?_
      rw [← hg.operands_id hn] at ho
      obtain ⟨record, hrecord⟩ := hall o (hsorted order n.id [] rfl o ho)
      exact ⟨record, lookup_eq_ok.mpr hrecord⟩
    refine ⟨_, records_concat_iff.mpr ⟨found, n, operands, hfound, hg.node?_id hn, hoperands, rfl⟩,
      List.forall_mem_append.mpr ⟨fun x hx ↦ ?_, List.forall_mem_singleton.mpr ?_⟩⟩
    · obtain ⟨record, hrecord⟩ := hall x hx
      exact ⟨record, by rw [List.lookup_append, hrecord, Option.some_or]⟩
    · rw [List.lookup_append, List.lookup_cons_self]
      cases found.lookup n.id <;> simp

private theorem exists_measure {threshold : Int} {d : Display Int} {severity : Severity}
    (hfound : Depth.records g weight order = .ok found)
    (hall : ∀ n ∈ g.nodes, ∃ record, found.lookup n.id = some record) :
    ∃ result, measure g order weight threshold d severity = .ok result ∧
      result.records = found := by
  obtain ⟨paths, hpaths⟩ : ∃ paths, g.terminals.mapM (report g found) = .ok paths := by
    refine Outcome.exists_mapM_eq_ok fun id hid ↦ ?_
    obtain ⟨n, hn, rfl⟩ := List.mem_map.mp hid
    obtain ⟨record, hrecord⟩ := hall n (List.mem_filter.mp hn).1
    exact ⟨_, Outcome.bind_eq_ok.mpr ⟨record, lookup_eq_ok.mpr hrecord, rfl⟩⟩
  exact ⟨_, Outcome.bind_eq_ok.mpr ⟨found, hfound, Outcome.bind_eq_ok.mpr ⟨paths, hpaths, rfl⟩⟩,
    rfl⟩

end Depth

namespace Graph

variable {g : Graph} {layout : Layout} {threshold : Int}

theorem exists_measureDepth (h : g.Coherent) (hlayout : g.layout = .ok layout) (w : WeightTable)
    (hthreshold : 0 ≤ threshold) (severity : Severity) :
    ∃ result, g.measureDepth w threshold severity = .ok result ∧
      Depth.records g w.weight layout.order = .ok result.records ∧
      ∀ n ∈ g.nodes, ∃ record, result.records.lookup n.id = some record := by
  obtain ⟨hlegal, harranges⟩ := legal_of_computeLayout h (h.layout_eq ▸ hlayout)
  obtain ⟨found, hfound, hall⟩ := Depth.exists_records h w.weight
    (fun _ ↦ mem_ids_of_mem_readyOrder h) fun _ _ _ ↦ readyOrder_sorted h
  have hrecord : ∀ n ∈ g.nodes, ∃ record, found.lookup n.id = some record := fun n hn ↦
    hall n.id (hlegal.mem_readyOrder h (mem_ids_of_mem_nodes hn))
  rw [← harranges.order] at hfound
  obtain ⟨result, hresult, rfl⟩ := Depth.exists_measure hfound hrecord
  refine ⟨result, ?_, hfound, hrecord⟩
  rw [measureDepth, if_neg (Int.not_lt.mpr hthreshold), hlayout]
  exact Outcome.mapError_eq_ok.mpr hresult

/-- **Depths are the weights of longest paths, and chains show them.** Every node of a graph with a
layout gets a record. Its depth is the greatest weight of an operand path that ends at the node. Its
chain is such a path, starts at a node without operands, and goes from each node to the first of its
operands with the greatest depth. -/
theorem depth_is_longest_path (h : g.Built) (hlayout : g.layout = .ok layout) (w : WeightTable)
    (hthreshold : 0 ≤ threshold) (severity : Severity) :
    ∃ result, g.measureDepth w threshold severity = .ok result ∧
      ∀ n ∈ g.nodes, ∃ record, result.records.lookup n.id = some record ∧
        IsGreatest {total | ∃ path, g.OperandPath path ∧ path.getLast? = some n.id ∧
          g.pathWeight w.weight path = total} record.depth ∧
        (g.OperandPath record.chain ∧ record.chain.getLast? = some n.id ∧
          g.pathWeight w.weight record.chain = record.depth) ∧
        (∃ first, record.chain.head? = some first ∧ g.operands first = []) ∧
        record.chain.IsChain fun a b ↦ Depth.FirstDeepest result.records (g.operands b) a := by
  have hg := h.coherent
  obtain ⟨result, hresult, hrecords, hall⟩ := exists_measureDepth hg hlayout w hthreshold severity
  refine ⟨result, hresult, fun n hn ↦ ?_⟩
  obtain ⟨record, hrecord⟩ := hall n hn
  have hdeepest := Depth.deepest_of_records hg w.weight_nonneg hrecords n.id record hrecord
  have htraced := Depth.traced_of_records hg w.weight_nonneg hrecords n.id record hrecord
  refine ⟨record, hrecord, ⟨⟨record.chain, hdeepest.path, hdeepest.last, hdeepest.depth⟩, ?_⟩,
    ⟨hdeepest.path, hdeepest.last, hdeepest.depth⟩, htraced.start, htraced.linked⟩
  rintro total ⟨path, hpath, hlast, rfl⟩
  exact hdeepest.greatest path hpath hlast

/-- A choice between a difference and a sum that are equally deep. -/
def branches : Graph :=
  .ofParts [⟨.input none none none none, 0⟩, ⟨.const 1 none, 1⟩, ⟨.binary .add 1 0 none, 2⟩,
    ⟨.binary .sub 0 1 none, 3⟩, ⟨.mux 0 [3, 2] none, 4⟩, ⟨.output 4 none none, 5⟩]
    []

/-- The chain of the output goes through the difference, which is the earlier operand of the
choice. -/
theorem branches_depth : ∃ result, branches.measureDepth .default 0 .info = .ok result ∧
    result.records.lookup 5 = some ⟨5, 2, [0, 3, 4, 5]⟩ ∧
    IsGreatest {total | ∃ path, branches.OperandPath path ∧ path.getLast? = some 5 ∧
      branches.pathWeight WeightTable.default.weight path = total} 2 ∧
    Depth.FirstDeepest result.records [0, 3, 2] 3 := by
  obtain ⟨layout, hlayout⟩ :=
    Outcome.exists_of_isOk (show branches.layout.isOk = true by decide +kernel)
  obtain ⟨result, hresult, hall⟩ := depth_is_longest_path (g := branches)
    (built_of_nodup (by decide) (by decide)) hlayout .default le_rfl .info
  obtain ⟨record, hrecord, hgreatest, -, -, hlinked⟩ := hall ⟨.output 4 none none, 5⟩
    (by simp [branches])
  obtain ⟨result', hresult', hlookup⟩ := Outcome.exists_of_any
    (show (branches.measureDepth .default 0 .info).toOption.any
      (decide <| ·.records.lookup 5 = some ⟨5, 2, [0, 3, 4, 5]⟩) = true by decide +kernel)
  cases hresult.symm.trans hresult'
  rw [decide_eq_true_eq, hrecord, Option.some_inj] at hlookup
  subst hlookup
  simp only [List.isChain_cons_cons] at hlinked
  exact ⟨result, hresult, hrecord, hgreatest, hlinked.2.1⟩

end Graph

end Datapath
