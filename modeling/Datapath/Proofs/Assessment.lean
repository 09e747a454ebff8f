import Datapath.Assessment
import Datapath.Proofs.Depth
import Datapath.Proofs.Gate
import Datapath.Proofs.Platform

/-!
# From paths to the verdict

What an assessment finds, and what the gate decides on it, in terms of the paths of the graph and
the settings alone.

## Exactness

The threshold is a rounded quotient, and depths are compared with it as integers. Nothing is lost: a
depth is above the threshold exactly if its time, as a rational, is longer than a period. So a
finding says that some path is late, and a path that is late is found.
-/

namespace Datapath

/-! ## Assessments -/

namespace Assessment

variable {ν α : Type} {x : Analyses ν α} {c : Config} {a : AssessmentOf ν α}

theorem conduct_eq_ok (h : conduct x c = .ok a) :
    c.platform = .ok a.platform ∧ c.gatePolicy = .ok a.policy ∧ x.validate = .ok () ∧
      (∃ table severity, c.table = .ok table ∧
        x.measure table a.platform.threshold severity = .ok a.depth) ∧
      a.elevate = c.elevate.isTrue ∧ a.early = Gate.structural? a.findings a.elevate := by
  obtain ⟨platform, hplatform, h⟩ := Outcome.bind_eq_ok.mp h
  obtain ⟨policy, hpolicy, h⟩ := Outcome.bind_eq_ok.mp h
  obtain ⟨⟨⟩, hvalidate, h⟩ := Outcome.bind_eq_ok.mp h
  obtain ⟨tuning, -, h⟩ := Outcome.bind_eq_ok.mp h
  obtain ⟨inference, -, h⟩ := Outcome.bind_eq_ok.mp h
  obtain ⟨table, htable, h⟩ := Outcome.bind_eq_ok.mp h
  obtain ⟨severity, -, h⟩ := Outcome.bind_eq_ok.mp h
  obtain ⟨depth, hdepth, h⟩ := Outcome.bind_eq_ok.mp h
  cases h
  rw [Outcome.mapError_eq_ok] at hplatform hpolicy hvalidate htable hdepth
  exact ⟨hplatform, hpolicy, hvalidate, ⟨table, severity, htable, hdepth⟩, rfl, rfl⟩

end Assessment

namespace Graph

variable {m : Machine} {g : Graph} {c : Config} {a : Assessment}

theorem measureDepth_of_assess (h : g.assess m c = .ok a) :
    ∃ table severity, c.table = .ok table ∧
      g.measureDepth table a.platform.threshold severity = .ok a.depth := by
  obtain ⟨-, -, hvalidate, ⟨table, severity, htable, hdepth⟩, -⟩ := Assessment.conduct_eq_ok h
  obtain ⟨g', hchecked, -⟩ := Outcome.map_eq_ok.mp hvalidate
  -- The depths are measured on the graph with its layout, which has the same nodes.
  have hdepth : ((g.checked m).toOption.getD g).measureDepth table a.platform.threshold severity =
      .ok a.depth := Outcome.mapError_eq_ok.mp hdepth
  rw [hchecked] at hdepth
  refine ⟨table, severity, htable, ?_⟩
  rw [← measureDepth_of_validate (checked_eq_ok_iff.mp hchecked).2]
  exact hdepth

/-- Some path into a node takes longer than a period. -/
def Late (g : Graph) (weight : Kind → Int) (unit period : Rat) (id : Int) : Prop :=
  ∃ path, g.OperandPath path ∧ path.getLast? = some id ∧
    period < g.pathWeight weight path * unit

private theorem late_iff_exceeds {weight : Kind → Int} {unit period : Rat} {threshold id : Int}
    (h : ∀ depth : Int, threshold < depth ↔ period < depth * unit) :
    g.Late weight unit period id ↔ Depth.Exceeds g weight threshold id := by
  simp only [Late, Depth.Exceeds, h]

theorem findings_of_assess (hg : g.Coherent) (ha : g.assess m c = .ok a) :
    ∃ unit period table, ∃ flagged : List Node,
      Platform.exact a.platform.unitTime = .ok unit ∧
      Platform.exact a.platform.period = .ok period ∧ c.table = .ok table ∧
      flagged.Sublist g.nodes ∧
      (∀ n, n ∈ flagged ↔ n ∈ g.nodes ∧ (n.kind = .regWrite ∨ n.kind = .output) ∧
        g.Late table.weight unit period n.id) ∧
      a.findings.map (·.nodes.getLast?) = flagged.map (some <| .int ·.id) := by
  obtain ⟨hplatform, -⟩ := Assessment.conduct_eq_ok ha
  obtain ⟨unit, period, hunit, hperiod, hthreshold⟩ := Platform.threshold_of_ofClock hplatform
  obtain ⟨table, severity, htable, hdepth⟩ := measureDepth_of_assess ha
  obtain ⟨layout, -, hmeasure⟩ := measureDepth_eq_ok hdepth
  obtain ⟨flagged, hsublist, hmem, hfindings⟩ :=
    Depth.findings_of_measure hg table.weight_nonneg hmeasure
  refine ⟨unit, period, table, flagged, hunit, hperiod, htable, hsublist, fun n ↦ ?_, hfindings⟩
  rw [hmem, late_iff_exceeds hthreshold, Kind.isTerminal, Bool.or_eq_true, decide_eq_true_eq,
    decide_eq_true_eq]

/-- Structure alone blocks exactly if findings are treated as errors and there are some. -/
theorem early_of_assess (ha : g.assess m c = .ok a) :
    (c.elevate.isTrue = true ∧ a.findings ≠ [] ∧
      ∃ d, a.early = some d ∧ d.verdict = .block) ∨
    ¬ (c.elevate.isTrue = true ∧ a.findings ≠ []) ∧ a.early = none := by
  obtain ⟨-, -, -, -, helevate, hearly⟩ := Assessment.conduct_eq_ok ha
  obtain ⟨table, severity, -, hdepth⟩ := measureDepth_of_assess ha
  obtain ⟨layout, -, hmeasure⟩ := measureDepth_eq_ok hdepth
  rw [hearly, ← helevate]
  exact Gate.structural?_cases (Depth.isDepthViolation_of_measure hmeasure)

/-- What an assessment finds, and what the gate makes of it. If findings are treated as errors and
there are some, the gate blocks without asking. Otherwise it asks once, and blocks exactly if there
is a slack and it violates the policy; it fails only for want of a word for an integer. -/
theorem assess_verdict (h : g.Built) (ha : g.assess m c = .ok a) :
    c.platform = .ok a.platform ∧ c.gatePolicy = .ok a.policy ∧
    ∃ unit period table, ∃ flagged : List Node,
      Platform.exact a.platform.unitTime = .ok unit ∧
      Platform.exact a.platform.period = .ok period ∧ c.table = .ok table ∧
      flagged.Sublist g.nodes ∧ (flagged.map (·.id)).Nodup ∧
      (∀ n, n ∈ flagged ↔ n ∈ g.nodes ∧ (n.kind = .regWrite ∨ n.kind = .output) ∧
        g.Late table.weight unit period n.id) ∧
      a.findings.map (·.nodes.getLast?) = flagged.map (some <| .int ·.id) ∧
      (c.elevate.isTrue = true ∧ flagged ≠ [] → ∃ d : Decision, d.verdict = .block ∧
        ∀ {μ : Type → Type} [Monad μ] (ask : μ (Option Json)), a.gate ask = pure (.ok d)) ∧
      (¬ (c.elevate.isTrue = true ∧ flagged ≠ []) →
        (∀ {μ : Type → Type} [Monad μ] (ask : μ (Option Json)), a.gate ask = a.decide <$> ask) ∧
        ∀ slack : Option Number,
          ((∃ x ∈ slack, a.policy.Unworded x) →
            a.decide (slack.map Number.toJson) = .error .integerTooLarge) ∧
          ((∀ x ∈ slack, ¬ a.policy.Unworded x) →
            ∃ d, a.decide (slack.map Number.toJson) = .ok d ∧
              (d.verdict = .block ↔ ∃ x ∈ slack, a.policy.Violates x))) := by
  obtain ⟨hplatform, hpolicy, -, -, -, hstructural⟩ := Assessment.conduct_eq_ok ha
  obtain ⟨unit, period, table, flagged, hunit, hperiod, htable, hsublist, hmem, hfindings⟩ :=
    findings_of_assess h.coherent ha
  have hnil : a.findings ≠ [] ↔ flagged ≠ [] := by
    have hlength := congrArg List.length hfindings
    rw [List.length_map, List.length_map] at hlength
    rw [← List.length_pos_iff, ← List.length_pos_iff, hlength]
  have hnodup : (flagged.map (·.id)).Nodup := h.coherent.ids_nodup.sublist (hsublist.map _)
  refine ⟨hplatform, hpolicy, unit, period, table, flagged, hunit, hperiod, htable, hsublist,
    hnodup, hmem, hfindings, ?_⟩
  rw [← hnil]
  -- Both halves turn on whether there is an early decision.
  rcases early_of_assess ha with ⟨helevate, hsome, d, hearly, hd⟩ | ⟨hfree, hearly⟩
  · refine ⟨fun _ ↦ ⟨d, hd, fun ask ↦ ?_⟩, fun hfree ↦ absurd ⟨helevate, hsome⟩ hfree⟩
    rw [AssessmentOf.gate, hearly]
  · refine ⟨fun hblocks ↦ absurd hblocks hfree, fun _ ↦ ⟨fun ask ↦ ?_, fun slack ↦ ?_⟩⟩
    · rw [AssessmentOf.gate, hearly]
    · have hdecide : a.decide = fun slack ↦ Gate.decide a.findings slack a.policy a.elevate := by
        funext slack
        rw [AssessmentOf.decide, hearly]
      rw [hstructural] at hearly
      rw [hdecide]
      refine ⟨?_, Gate.decide_of_worded hearly⟩
      rintro ⟨x, rfl, hx⟩
      exact Gate.decide_of_unworded hearly hx

/-- A unit of weight takes longer than a period, and findings are treated as errors. -/
def hurried : Config := { Config.default with unitTime := .int 50, elevate := .bool true }

/-- A negative slack is treated as an error. -/
def guarded : Config := { Config.default with policy := .str "error" }

/-- For a hurried clock the increment of the counter is too slow, so the gate blocks whatever there
is to ask. For the default clock it is not, so the gate asks. It then blocks if the slack is
negative, but not if there is none. -/
theorem assess_counter : counter.Built ∧
    (∃ a, counter.assess .roomy hurried = .ok a ∧ ∃ d : Decision, d.verdict = .block ∧
      ∀ {μ : Type → Type} [Monad μ] (ask : μ (Option Json)), a.gate ask = pure (.ok d)) ∧
    ∃ a, counter.assess .roomy guarded = .ok a ∧
      (∀ {μ : Type → Type} [Monad μ] (ask : μ (Option Json)), a.gate ask = a.decide <$> ask) ∧
      (∃ d, a.decide (some (.int (-1))) = .ok d ∧ d.verdict = .block) ∧
      ∃ d, a.decide none = .ok d ∧ d.verdict ≠ .block := by
  refine ⟨counter_built, ?_, ?_⟩
  · obtain ⟨a, ha, hfound⟩ := Outcome.exists_of_any (show
      (counter.assess .roomy hurried).toOption.any (!·.findings.isEmpty) = true by decide +kernel)
    obtain ⟨-, -, unit, period, table, flagged, -, -, -, -, -, -, hfindings, hblocks, -⟩ :=
      assess_verdict counter_built ha
    refine ⟨a, ha, hblocks ⟨by decide, ?_⟩⟩
    rintro rfl
    rw [List.map_nil, List.map_eq_nil_iff] at hfindings
    rw [hfindings] at hfound
    cases hfound
  · obtain ⟨a, ha, hpolicy⟩ := Outcome.exists_of_any (show
      (counter.assess .roomy guarded).toOption.any (decide <| ·.policy.kind = .error) = true by
        decide +kernel)
    obtain ⟨-, -, unit, period, table, flagged, -, -, -, -, -, -, -, -, hfree⟩ :=
      assess_verdict counter_built ha
    obtain ⟨hasks, hdecides⟩ := hfree fun hboth ↦ absurd hboth.1 (by decide)
    have hkind : a.policy.kind = .error := of_decide_eq_true hpolicy
    have hworded : ¬ a.policy.Unworded (.int (-1)) := by
      rintro (hbeyond | ⟨hstrict, -⟩)
      · obtain ⟨y, hy⟩ := Outcome.exists_of_isOk
          (show (Number.int (-1)).toDouble.isOk = true by decide +kernel)
        rw [hy] at hbeyond
        cases hbeyond
      · rw [hkind] at hstrict
        cases hstrict
    have hviolates : a.policy.Violates (.int (-1)) := Or.inl ⟨hkind, by decide +kernel⟩
    obtain ⟨d, hd, hblock⟩ := (hdecides (some (.int (-1)))).2 (by simpa using hworded)
    obtain ⟨d', hd', hblock'⟩ := (hdecides none).2 (by simp)
    exact ⟨a, ha, hasks, ⟨d, hd, hblock.mpr ⟨_, rfl, hviolates⟩⟩, d', hd', by simp [hblock']⟩

/-- A margin that no double reaches. -/
def demanding : Config :=
  { Config.default with policy := .str "strict", margin := .int (10 ^ 400) }

/-- There is nothing to find in the empty graph, and a slack of five is below the margin. The gate
fails instead of blocking. -/
theorem assess_demanding : empty.Built ∧ ∃ a, empty.assess .roomy demanding = .ok a ∧
    a.policy.Violates (.real (Double.ofRat 5)) ∧
    a.gate (pure (some (.real (Double.ofRat 5))) : Id (Option Json)) =
      .error .integerTooLarge := by
  obtain ⟨a, ha, hpolicy⟩ := Outcome.exists_of_any
    (show (empty.assess .roomy demanding).toOption.any (fun a ↦ decide (a.policy.kind = .strict ∧
      a.policy.margin.number? = some (.int (10 ^ 400)) ∧ a.early = none)) = true by decide +kernel)
  rw [decide_eq_true_eq] at hpolicy
  obtain ⟨hkind, hmargin, hearly⟩ := hpolicy
  obtain ⟨-, -, -, -, -, hstructural⟩ := Assessment.conduct_eq_ok ha
  have hbeyond : Double.ofRat ((10 ^ 400 : Int) : Rat) = .infinite false := by decide +kernel
  have hunworded : a.policy.Unworded (.real (Double.ofRat 5)) :=
    Or.inr ⟨hkind, _, hmargin, by rw [Number.toDouble, hbeyond]⟩
  refine ⟨.empty, a, ha, Or.inr ⟨hkind, _, hmargin, by decide +kernel⟩, ?_⟩
  rw [AssessmentOf.gate, hearly]
  change a.decide (some (.real (Double.ofRat 5))) = _
  rw [AssessmentOf.decide, hearly]
  exact Gate.decide_of_unworded (hstructural.symm.trans hearly) hunworded

end Graph

end Datapath
