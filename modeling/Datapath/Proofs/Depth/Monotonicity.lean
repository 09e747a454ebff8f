import Datapath.Proofs.Depth.Chain

/-!
# Heavier weights and lower thresholds

Making operations heavier makes no path shallower, and lowering the threshold lets no path pass that
was too deep before. The deepest path into a node may well become another one, with other operands
at every step, so two measurements cannot be compared along their chains. They are compared through
all paths: the chain of the first measurement is a path for the second one too, where it weighs no
less, and no path weighs more than the depth that the second one finds.
-/

namespace Datapath

variable {g : Graph} {weight weight' : Kind → Int} {threshold threshold' id : Int}

theorem Graph.pathWeight_mono (g : Graph) (hweight : ∀ k, weight k ≤ weight' k)
    (path : List Int) : g.pathWeight weight path ≤ g.pathWeight weight' path :=
  List.sum_le_sum fun id _ ↦ hweight (g.kindOf id)

namespace Depth

private theorem Deepest.depth_mono {record record' : DepthRecordOf Int}
    (hweight : ∀ k, weight k ≤ weight' k) (h : Deepest g weight id record)
    (h' : Deepest g weight' id record') : record.depth ≤ record'.depth :=
  calc record.depth
      = g.pathWeight weight record.chain := h.depth.symm
    _ ≤ g.pathWeight weight' record.chain := g.pathWeight_mono hweight record.chain
    _ ≤ record'.depth := h'.greatest record.chain h.path h.last

theorem Exceeds.mono (hweight : ∀ k, weight k ≤ weight' k) (hthreshold : threshold' ≤ threshold)
    (h : Exceeds g weight threshold id) : Exceeds g weight' threshold' id := by
  obtain ⟨path, hpath, hlast, hless⟩ := h
  refine ⟨path, hpath, hlast, ?_⟩
  calc threshold'
      ≤ threshold := hthreshold
    _ < g.pathWeight weight path := hless
    _ ≤ g.pathWeight weight' path := g.pathWeight_mono hweight path

private theorem flagged_mono (g : Graph) (hweight : ∀ k, weight k ≤ weight' k)
    (hthreshold : threshold' ≤ threshold) :
    (flagged g weight threshold).Sublist (flagged g weight' threshold') := by
  classical
  apply List.monotone_filter_right
  intro n hn
  rw [decide_eq_true_eq] at hn ⊢
  exact hn.mono hweight hthreshold

end Depth

namespace Graph

variable {layout : Layout} {w w' : WeightTable}

/-- **Depths and findings are monotone.** With weights that are nowhere smaller and a threshold that
is not greater, a graph with a layout gets a depth at every node that is no smaller, and a finding
about every terminal that it had one about before. -/
theorem measureDepth_mono (h : g.Built) (hlayout : g.layout = .ok layout)
    (hweight : ∀ k, w.weight k ≤ w'.weight k) (hnonneg : 0 ≤ threshold')
    (hthreshold : threshold' ≤ threshold) (severity severity' : Severity) :
    ∃ result result', g.measureDepth w threshold severity = .ok result ∧
      g.measureDepth w' threshold' severity' = .ok result' ∧
      (∀ n ∈ g.nodes, ∃ record record', result.records.lookup n.id = some record ∧
        result'.records.lookup n.id = some record' ∧ record.depth ≤ record'.depth) ∧
      ∃ flagged flagged' : List Node, flagged.Sublist flagged' ∧ flagged'.Sublist g.nodes ∧
        (∀ n ∈ flagged', n.kind = .regWrite ∨ n.kind = .output) ∧
        result.diagnostics.map (·.nodes.getLast?) = flagged.map (some <| .int ·.id) ∧
        result'.diagnostics.map (·.nodes.getLast?) = flagged'.map (some <| .int ·.id) := by
  have hg := h.coherent
  obtain ⟨result, hresult, hrecords, hall⟩ :=
    exists_measureDepth hg hlayout w (hnonneg.trans hthreshold) severity
  obtain ⟨result', hresult', hrecords', hall'⟩ :=
    exists_measureDepth hg hlayout w' hnonneg severity'
  obtain ⟨_, -, hmeasure⟩ := measureDepth_eq_ok hresult
  obtain ⟨_, -, hmeasure'⟩ := measureDepth_eq_ok hresult'
  refine ⟨result, result', hresult, hresult', fun n hn ↦ ?_, _, _,
    Depth.flagged_mono g hweight hthreshold, Depth.flagged_sublist g _ _, fun n hn ↦ ?_,
    Depth.findings_eq_flagged hg w.weight_nonneg hmeasure,
    Depth.findings_eq_flagged hg w'.weight_nonneg hmeasure'⟩
  · obtain ⟨record, hrecord⟩ := hall n hn
    obtain ⟨record', hrecord'⟩ := hall' n hn
    have hdeepest := Depth.deepest_of_records hg w.weight_nonneg hrecords n.id record hrecord
    have hdeepest' := Depth.deepest_of_records hg w'.weight_nonneg hrecords' n.id record' hrecord'
    exact ⟨record, record', hrecord, hrecord', hdeepest.depth_mono hweight hdeepest'⟩
  · obtain ⟨-, hterminal, -⟩ := Depth.mem_flagged_iff.mp hn
    rwa [Kind.isTerminal, Bool.or_eq_true, decide_eq_true_eq, decide_eq_true_eq] at hterminal

/-- Default weights, except that additions are slow. -/
def slowAddition : WeightTable :=
  ⟨WeightTable.setWeights WeightTable.defaultWeights [(.add, 4)], by decide, by decide⟩

private theorem default_weight_le_slow (k : Kind) :
    WeightTable.default.weight k ≤ slowAddition.weight k := by
  cases k <;> decide

/-- With default weights the chain of the output goes through the difference, with slow additions
through the sum. The one finding of the first measurement is among those of the second. -/
theorem branches_findings_mono : ∃ result result',
    branches.measureDepth .default 1 .info = .ok result ∧
    branches.measureDepth slowAddition 0 .info = .ok result' ∧
    result.records.lookup 5 = some ⟨5, 2, [0, 3, 4, 5]⟩ ∧
    result'.records.lookup 5 = some ⟨5, 5, [1, 2, 4, 5]⟩ ∧
    (∀ n ∈ branches.nodes, ∃ record record', result.records.lookup n.id = some record ∧
      result'.records.lookup n.id = some record' ∧ record.depth ≤ record'.depth) ∧
    ∃ n, result.diagnostics.map (·.nodes.getLast?) = [some (.int n)] ∧
      some (.int n) ∈ result'.diagnostics.map (·.nodes.getLast?) := by
  obtain ⟨layout, hlayout⟩ :=
    Outcome.exists_of_isOk (show branches.layout.isOk = true by decide +kernel)
  obtain ⟨result, result', hresult, hresult', hdepths, flagged, flagged', hsublist, -, -, hfindings,
      hfindings'⟩ :=
    measureDepth_mono (g := branches) (built_of_nodup (by decide) (by decide)) hlayout
      default_weight_le_slow (le_refl 0) (zero_le_one' Int) .info .info
  obtain ⟨found, hfound, hchain⟩ := Outcome.exists_of_any
    (show (branches.measureDepth .default 1 .info).toOption.any (fun r ↦
      decide (r.records.lookup 5 = some ⟨5, 2, [0, 3, 4, 5]⟩ ∧ r.diagnostics.length = 1)) = true by
        decide +kernel)
  obtain ⟨found', hfound', hchain'⟩ := Outcome.exists_of_any
    (show (branches.measureDepth slowAddition 0 .info).toOption.any (fun r ↦
      decide (r.records.lookup 5 = some ⟨5, 5, [1, 2, 4, 5]⟩)) = true by decide +kernel)
  obtain rfl := Except.ok.inj (hfound.symm.trans hresult)
  obtain rfl := Except.ok.inj (hfound'.symm.trans hresult')
  rw [decide_eq_true_eq] at hchain hchain'
  refine ⟨found, found', hresult, hresult', hchain.1, hchain', hdepths, ?_⟩
  have hlength := congrArg List.length hfindings
  rw [List.length_map, List.length_map, hchain.2] at hlength
  obtain ⟨n, rfl⟩ := List.length_eq_one_iff.mp hlength.symm
  refine ⟨n.id, hfindings, ?_⟩
  rw [hfindings']
  exact List.mem_map_of_mem (hsublist.subset (List.mem_singleton_self n))

end Graph

end Datapath
