import Datapath.Proofs.Inference.History
import Datapath.Proofs.Inference.Monotonicity

/-!
# A loop that is not widened gets the least fixpoint

When the intervals outside a loop are given, what the loop writes is a function of the seed. It is
total, since every operand from outside is known, and monotone, since every operation is. A seed
that is closed under it contains whatever the register can come to hold by way of the loop.

The values that inference finds for the register are closed. As long as every seed is the join of
the one before and what was written, they are also inside every closed interval that contains the
initial value: if a seed is, so is what it writes. Widening gives this up to come to an end, and it
happens only to registers with a width, after the delay.
-/

namespace Datapath.Inference

variable {g : Graph} {t : Tuning} {result : Inference} {c : List Int} {loop : FeedbackLoop}
  {r : Register} {ends : List Int} {iteration : Int} {base : Env} {bound final : Interval}
  {seeds : List Interval}

/-- What one evaluation of a loop writes at a seed, with the nodes outside the loop at the intervals
of a result. -/
def writtenAt (g : Graph) (t : Tuning) (result : Inference) (loop : FeedbackLoop)
    (seed : Interval) : Except Mishap Interval := do
  let env ← pass g t ⟨result.nodes, result.registers, result.histories⟩ loop seed
  lookup env loop.write

/-- An interval contains an initial value, is closed under a function, and lies inside every other
interval of which this holds. -/
structure LeastClosed (F : Interval → Interval) (init : Int) (i : Interval) : Prop where
  init_mem : init ∈ i
  /-- It contains what the function makes of it. -/
  closed : (F i).leq i = true
  /-- It lies inside all such intervals. -/
  least : ∀ bound, init ∈ bound → (F bound).leq bound = true → i.leq bound = true

/-! ## What a loop writes -/

private theorem Solution.exists_evaluates (hg : g.Coherent) (hlegal : g.Legal)
    (h : Solution g t result)
    (hc : c ∈ g.dependencyComponents) (hloop : g.IsLoopOf c loop) (seed : Interval) :
    ∃ env written, Evaluates g t result.nodes loop seed env ∧
      env.lookup loop.write = some written ∧ writtenAt g t result loop seed = .ok written := by
  obtain ⟨env, written, hpass, heval, hwritten⟩ := exists_evaluation hg hlegal hc hloop (t := t)
    (s := ⟨result.nodes, result.registers, result.histories⟩)
    (fun n hn _ o ho ↦ Or.inr (h.exists_lookup hg hlegal (hlegal.operandsKnown n hn o ho))) seed
  refine ⟨env, written, heval, hwritten, ?_⟩
  rw [writtenAt, hpass, Outcome.ok_bind, lookup_eq_ok.mpr hwritten]

theorem Solution.written_mono (hg : g.Coherent) (hlegal : g.Legal) (h : Solution g t result)
    (hc : c ∈ g.dependencyComponents) (hloop : g.IsLoopOf c loop)
    {seed seed' written written' : Interval} {env env' : Env} (hseed : seed.leq seed' = true)
    (heval : Evaluates g t result.nodes loop seed env)
    (hwritten : env.lookup loop.write = some written)
    (heval' : Evaluates g t result.nodes loop seed' env')
    (hwritten' : env'.lookup loop.write = some written') : written.leq written' = true := by
  have hnodes : ∀ {id : Int}, id ∈ loop.nodes ↔ id ∈ c := hloop.mem_nodes_iff hg hlegal hc
  have hbase : ∀ id ∈ loop.nodes, ∀ o ∈ g.operands id, o ∉ loop.nodes →
      Within result.nodes result.nodes o := by
    intro id _ o ho _
    obtain ⟨n, hn, -, hoperand⟩ := Graph.exists_node_of_mem_operands ho
    obtain ⟨i, hi⟩ := h.exists_lookup hg hlegal (hlegal.operandsKnown n hn o hoperand)
    exact ⟨i, i, hi, hi, Interval.leq_refl i⟩
  have hwithin := heval.within (.refl g) hg hlegal hg (scheduled_of_isLoopOf hg hlegal hc hloop)
    (fun id hid ↦ Graph.mem_ids_of_mem_component hg hc (hnodes.mp hid)) hbase hseed heval'
  exact (hwithin loop.write (hnodes.mpr (hloop.write_mem hg).1)).leq hwritten hwritten'

/-- What a loop writes is a monotone function of the seed, and the same in every evaluation. -/
theorem Solution.exists_writtenAt (hg : g.Coherent) (hlegal : g.Legal) (h : Solution g t result)
    (hc : c ∈ g.dependencyComponents) (hloop : g.IsLoopOf c loop) :
    ∃ F : Interval → Interval, (∀ seed, writtenAt g t result loop seed = .ok (F seed)) ∧
      (∀ seed seed', seed.leq seed' = true → (F seed).leq (F seed') = true) ∧
      ∀ seed env written, Evaluates g t result.nodes loop seed env →
        env.lookup loop.write = some written → written = F seed := by
  choose table F heval hwritten hF using h.exists_evaluates hg hlegal hc hloop
  refine ⟨F, hF, fun seed seed' hseed ↦ ?_, fun seed env written heval' hwritten' ↦ ?_⟩
  · exact h.written_mono hg hlegal hc hloop hseed (heval seed) (hwritten seed) (heval seed')
      (hwritten seed')
  · have hsame := Interval.leq_refl seed
    apply Interval.leq_antisymm
    · exact h.written_mono hg hlegal hc hloop hsame heval' hwritten' (heval seed) (hwritten seed)
    · exact h.written_mono hg hlegal hc hloop hsame (heval seed) (hwritten seed) heval' hwritten'

/-! ## The last seed of a loop -/

/-- Seeds that were only joined stay inside an interval that contains what the seeds in it write. -/
theorem Traces.last_leq (h : Traces g t base loop ends iteration seeds)
    (hplain : ends = [] ∨ iteration + seeds.length ≤ t.wideningDelay + 2)
    (hclosed : ∀ seed env written, seed.leq bound = true → Evaluates g t base loop seed env →
      env.lookup loop.write = some written → written.leq bound = true)
    (hfirst : ∀ seed ∈ seeds.head?, seed.leq bound = true) :
    ∀ final ∈ seeds.getLast?, final.leq bound = true := by
  induction h with
  | last => exact hfirst
  | @next iteration seed written env rest heval hwritten _ _ ih =>
    have hseed : seed.leq bound = true := hfirst seed rfl
    have hgrow : grow t ends iteration seed written = seed.join written := by
      apply grow_eq_join
      refine hplain.imp_right fun hlength ↦ ?_
      simp only [List.length_cons] at hlength
      omega
    rw [List.getLast?_cons_cons]
    apply ih
    · refine hplain.imp_right fun hlength ↦ ?_
      rw [List.length_cons] at hlength
      omega
    · rintro _ ⟨⟩
      rw [hgrow]
      exact Interval.join_leq hseed (hclosed seed env written hseed heval hwritten)

/-- **Without widening, a loop gets the least fixpoint.** What the loop writes is a function of the
seed. The values of the register contain the initial one and what is written when the reads are at
these values, and they lie inside every interval that does so too. -/
theorem register_least_fixpoint (h : g.Built) (hinfer : g.infer t = .ok result) {layout : Layout}
    (hlayout : g.layout = .ok layout) (hloop : loop ∈ layout.loops) (hr : r ∈ g.registers)
    (hname : r.name = loop.register)
    (hplain : r.width = none ∨
      ∃ count, result.iterations.lookup r.name = some count ∧ (count : Int) ≤ t.wideningDelay + 1) :
    ∃ (F : Interval → Interval) (i : Interval),
      (∀ seed, writtenAt g t result loop seed = .ok (F seed)) ∧
      result.registers.lookup r.name = some i ∧ LeastClosed F r.init i := by
  have hg := h.coherent
  obtain ⟨hlegal, hsolution⟩ := solution_of_infer hg hinfer
  obtain ⟨-, harranges⟩ := Graph.legal_of_computeLayout hg (hg.layout_eq ▸ hlayout)
  obtain ⟨c, hc, hisLoop⟩ := harranges.isLoopOf loop hloop
  obtain ⟨F, hF, hmono, hvalue⟩ := hsolution.exists_writtenAt hg hlegal hc hisLoop
  obtain ⟨r', seeds, hr', hseeds, hran, hregister⟩ := ran_of_infer hg hinfer hlayout hloop
  rw [← hname, hg.register?_name hr, Option.some_inj] at hr'
  subst hr'
  obtain ⟨ends, hends, htraces⟩ := hran.traces
  obtain ⟨final, table, written, hlast, heval, hwritten, hleq, -⟩ := hran.settled
  rw [hlast, ← hname] at hregister
  have hjoined : ends = [] ∨ 1 + (seeds.length : Int) ≤ t.wideningDelay + 2 := by
    rcases hplain with hwidth | ⟨count, hcount, hdelay⟩
    · rw [thresholds_eq_nil hwidth, Except.ok.injEq] at hends
      exact Or.inl hends.symm
    · rw [InferenceOf.lookup_iterations, hname, hseeds, Option.map_some, Option.some_inj] at hcount
      omega
  refine ⟨F, final, hF, hregister.symm, ?_, ?_, ?_⟩
  · obtain ⟨i, hi, hsolved⟩ := hsolution.register r hr
    rw [← hregister, Option.some_inj] at hi
    exact hi ▸ (hsolved.cover hg hlegal).1
  · rwa [← hvalue final table written heval hwritten]
  · intro bound hinit hclosed
    refine htraces.last_leq hjoined (fun seed env written hseed heval hwritten ↦ ?_) ?_ final hlast
    · rw [hvalue seed env written heval hwritten]
      exact Interval.leq_trans (hmono seed bound hseed) hclosed
    · rw [hran.first]
      rintro _ ⟨⟩
      exact Interval.leq_iff.mpr hinit

/-- The latch keeps the values of its input. The counter of four bits gets all its values one by one
when widening starts late enough. -/
theorem least_fixpoint_latch_counter :
    (∃ result, (latch 3).infer .default = .ok result ∧ ∃ loop, loop.register = "kept" ∧
      ∃ (F : Interval → Interval) (i : Interval),
        (∀ seed, writtenAt (latch 3) .default result loop seed = .ok (F seed)) ∧
        result.registers.lookup "kept" = some i ∧ LeastClosed F 0 i) ∧
    ∃ t result, t.wideningDelay = 20 ∧ Graph.counter.infer t = .ok result ∧
      result.iterations.lookup "count" = some 16 ∧ ∃ loop, loop.register = "count" ∧
        ∃ (F : Interval → Interval) (i : Interval),
          (∀ seed, writtenAt Graph.counter t result loop seed = .ok (F seed)) ∧
          result.registers.lookup "count" = some i ∧ LeastClosed F 0 i := by
  constructor
  · obtain ⟨result, hresult⟩ :=
      Outcome.exists_of_isOk (show ((latch 3).infer .default).isOk = true by decide +kernel)
    obtain ⟨layout, hlayout, loop, hloop, hname⟩ :
        ∃ layout, (latch 3).layout = .ok layout ∧ ∃ loop ∈ layout.loops, loop.register = "kept" :=
      exists_loop_of_any (by decide +kernel)
    exact ⟨result, hresult, loop, hname, register_least_fixpoint (latch_built 3) hresult hlayout
      hloop (List.mem_singleton_self _) hname.symm (Or.inl rfl)⟩
  · obtain ⟨result, hresult, hcount⟩ := Outcome.exists_of_any
      (show (Graph.counter.infer ⟨256, 20, 32, false, by decide, by decide, by decide⟩).toOption.any
        (·.iterations.lookup "count" == some 16) = true by decide +kernel)
    have hcount := beq_iff_eq.mp hcount
    obtain ⟨layout, hlayout, loop, hloop, hname⟩ := exists_loop_counter
    exact ⟨_, result, rfl, hresult, hcount, loop, hname, register_least_fixpoint
      Graph.counter_built hresult hlayout hloop (List.mem_singleton_self _) hname.symm
      (Or.inr ⟨16, hcount, by decide⟩)⟩

end Datapath.Inference
