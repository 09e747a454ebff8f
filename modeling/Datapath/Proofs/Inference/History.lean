import Datapath.Proofs.Inference.Totality
import Datapath.Proofs.Interval.Monotonicity

/-!
# The seeds of a loop grow strictly

An evaluation of a loop that writes nothing new is the last one. Any other writes something that the
seed does not contain, and the next seed contains both. So every seed lies strictly inside the next
one, whether the two were joined or the seed was widened, and whether or not the run came to an end.

## Where histories are kept

Inference solves every component once and adds the seeds of a loop under the name of its register.
No two loops share a register, so what is found under a name is the whole history of one loop. The
intervals over which the loop was evaluated are those of the result, because nothing that has been
found changes later.
-/

namespace Datapath

namespace Interval

variable {a b : Interval}

/-- All elements of the first interval are in the second, which has others as well. -/
def StrictlyIn (a b : Interval) : Prop := (∀ n ∈ a, n ∈ b) ∧ ∃ n ∈ b, n ∉ a

private theorem strictlyIn_of_leq (h : a.leq b = true) (hnew : ¬ b.leq a = true) :
    a.StrictlyIn b := by
  refine ⟨leq_iff_forall_mem.mp h, ?_⟩
  by_contra hnone
  push Not at hnone
  exact hnew (leq_iff_forall_mem.mpr hnone)

end Interval

/-- The last two seeds of a divergence are related as all neighbours are. -/
theorem Divergence.rel_previous_current {R : Interval → Interval → Prop} {d : Divergence}
    (hchain : d.history.IsChain R) (hlength : 2 ≤ d.history.length) : R d.previous d.current := by
  rw [previous, current]
  generalize d.history = seeds at hchain hlength
  obtain rfl | ⟨front, last, rfl⟩ := seeds.eq_nil_or_concat'
  · simp at hlength
  obtain rfl | ⟨front, before, rfl⟩ := front.eq_nil_or_concat'
  · simp at hlength
  rw [List.isChain_append] at hchain
  simpa using hchain.2.2

theorem InferenceOf.lookup_iterations (result : Inference) (name : String) :
    result.iterations.lookup name = (result.histories.lookup name).map List.length := by
  rw [iterations]
  induction result.histories with
  | nil => rfl
  | cons entry rest ih =>
    rw [List.map_cons, List.lookup_cons, List.lookup_cons]
    by_cases hname : name = entry.1
    · rw [beq_iff_eq.mpr hname]
      rfl
    · rw [beq_eq_false_iff_ne.mpr hname]
      exact ih

namespace Inference

variable {g : Graph} {t : Tuning} {base base' : Env} {loop : FeedbackLoop} {ends : List Int}
  {iteration : Int} {seed written : Interval} {seeds : List Interval} {r : Register}

/-! ## The seeds of one loop -/

private theorem written_leq_grow (iteration : Int) (seed written : Interval) :
    written.leq (grow t ends iteration seed written) = true := by
  rw [grow]
  split
  case isTrue => exact Interval.leq_widen_right seed written ends
  case isFalse => exact Interval.leq_join_right seed written

private theorem strictlyIn_grow (iteration : Int) (hnew : written.leq seed = false) :
    seed.StrictlyIn (grow t ends iteration seed written) := by
  apply Interval.strictlyIn_of_leq (Settles.leq_grow iteration seed written)
  intro hleq
  rw [Interval.leq_trans (written_leq_grow iteration seed written) hleq] at hnew
  cases hnew

theorem Traces.isChain (h : Traces g t base loop ends iteration seeds) :
    seeds.IsChain Interval.StrictlyIn := by
  induction h with
  | last => exact List.isChain_singleton _
  | next _ _ hnew _ ih => exact List.isChain_cons_cons.mpr ⟨strictlyIn_grow _ hnew, ih⟩

/-- The seeds of a loop whose run came to an end, over the intervals that were found. -/
structure Ran (g : Graph) (t : Tuning) (base : Env) (loop : FeedbackLoop) (r : Register)
    (seeds : List Interval) : Prop where
  first : seeds.head? = some (Interval.point r.init)
  /-- There are no more seeds than evaluations are allowed. -/
  length_le : (seeds.length : Int) ≤ t.maxIterations
  /-- The seeds follow from one another. -/
  traces : ∃ ends, thresholds r = .ok ends ∧ Traces g t base loop ends 1 seeds
  /-- The last seed covers what is written, and the intervals that it leads to are kept. -/
  settled : ∃ final table written, seeds.getLast? = some final ∧
    Evaluates g t base loop final table ∧ table.lookup loop.write = some written ∧
    written.leq final = true ∧ Extends table base

theorem Ran.mono (h : Ran g t base loop r seeds) (hext : Extends base base') :
    Ran g t base' loop r seeds := by
  refine ⟨h.first, h.length_le, ?_, ?_⟩
  · obtain ⟨ends, hends, htraces⟩ := h.traces
    exact ⟨ends, hends, htraces.mono hext⟩
  · obtain ⟨final, table, written, hlast, heval, hwritten, hleq, htable⟩ := h.settled
    exact ⟨final, table, written, hlast, heval.mono hext, hwritten, hleq,
      fun id i hi ↦ hext id i (htable id i hi)⟩

section Component

variable {earlier later : List (List Int)} {c : List Int} {s s' : State}

private theorem ran_of_solveLoop (hg : g.Coherent) (hlegal : g.Legal)
    (h : Solved g t earlier.flatten s.env s.values)
    (heq : g.dependencyComponents = earlier ++ c :: later) (hloop : g.IsLoopOf c loop)
    (hs' : solveLoop g t s loop = .ok s') :
    Extends s.env s'.env ∧ ∃ r seeds, g.register? loop.register = some r ∧
      s'.histories = s.histories ++ [(loop.register, seeds)] ∧ Ran g t s'.env loop r seeds := by
  have hc : c ∈ g.dependencyComponents := by simp [heq]
  obtain ⟨r, ends, env, seeds, hr, hends, hsettle, rfl⟩ := solveLoop_eq_ok hs'
  obtain ⟨rest, final, written, hseeds, htraces, hlength, hlast, heval, hwritten, hleq, hframe⟩ :=
    settle_eq_ok (scheduled_of_isLoopOf hg hlegal hc hloop) hsettle
  have hext : Extends s.env env :=
    h.extends_of_frame hg heq fun id hid ↦ hframe id (mt (hloop.mem_nodes_iff hg hlegal hc).mp hid)
  refine ⟨hext, r, seeds, hr, rfl, ?_, ?_, ?_, ?_⟩
  · rw [hseeds, List.head?_cons]
  · have hpos := t.maxIterations_pos
    omega
  · exact ⟨ends, hends, htraces.mono hext⟩
  · exact ⟨final, env, written, hlast, heval.mono hext, hwritten, hleq, Extends.refl env⟩

/-! ## The histories of all loops -/

/-- The histories after some components. -/
structure Recorded (g : Graph) (t : Tuning) (done : List (List Int)) (s : State) : Prop where
  /-- Each loop has its history. -/
  found : ∀ d ∈ done, ∀ loop, g.IsLoopOf d loop → ∃ r seeds, g.register? loop.register = some r ∧
    s.histories.lookup loop.register = some seeds ∧ Ran g t s.env loop r seeds
  /-- There are no other histories. -/
  known : ∀ name seeds, s.histories.lookup name = some seeds →
    ∃ d ∈ done, ∃ loop, g.IsLoopOf d loop ∧ loop.register = name

private theorem recorded_nil : Recorded g t [] ⟨[], [], []⟩ := by
  constructor <;> simp

theorem Recorded.node_step (hg : g.Coherent) {id : Int} (h : Recorded g t earlier s)
    (hsolved : Solved g t earlier.flatten s.env s.values)
    (heq : g.dependencyComponents = earlier ++ [id] :: later)
    (hs' : solveNode g t s id = .ok s') : Recorded g t (earlier ++ [[id]]) s' := by
  obtain ⟨i, values, rfl⟩ := solveNode_eq_ok hs'
  have hext : Extends s.env ((id, i) :: s.env) :=
    extends_cons (hsolved.lookup_eq_none hg heq (List.mem_singleton_self id))
  constructor
  · intro d hd loop hloop
    rcases List.mem_append.mp hd with hd | hd
    · obtain ⟨r, seeds, hr, hseeds, hran⟩ := h.found d hd loop hloop
      exact ⟨r, seeds, hr, hseeds, hran.mono hext⟩
    · rw [List.mem_singleton.mp hd] at hloop
      exact absurd rfl (hloop.length_ne_one hg)
  · intro name seeds hseeds
    obtain ⟨d, hd, hloop⟩ := h.known name seeds hseeds
    exact ⟨d, List.mem_append_left _ hd, hloop⟩

theorem Recorded.loop_step (hg : g.Coherent) (hlegal : g.Legal) (h : Recorded g t earlier s)
    (hsolved : Solved g t earlier.flatten s.env s.values)
    (heq : g.dependencyComponents = earlier ++ c :: later) (hloop : g.IsLoopOf c loop)
    (hs' : solveLoop g t s loop = .ok s') : Recorded g t (earlier ++ [c]) s' := by
  obtain ⟨hext, r, seeds, hr, hhistories, hran⟩ :=
    ran_of_solveLoop hg hlegal hsolved heq hloop hs'
  have hnone : s.histories.lookup loop.register = none := by
    rw [Option.eq_none_iff_forall_ne_some]
    intro seeds' hseeds'
    -- an earlier loop of the register would be in the same component
    obtain ⟨d, hd, loop', hloop', hname⟩ := h.known _ seeds' hseeds'
    have hsame : d = c := hloop'.eq_of_register_eq hg hlegal (by simp [heq, hd]) (by simp [heq])
      hloop hname
    obtain ⟨hwrite, -⟩ := hloop.write_mem hg
    exact (Graph.dependencies_decompose hg).notMem_flatten_of_mem heq hwrite
      (List.mem_flatten.mpr ⟨d, hd, hsame ▸ hwrite⟩)
  constructor
  · intro d hd loop' hloop'
    rcases List.mem_append.mp hd with hd | hd
    · obtain ⟨r', seeds', hr', hseeds', hran'⟩ := h.found d hd loop' hloop'
      refine ⟨r', seeds', hr', ?_, hran'.mono hext⟩
      rw [hhistories, List.lookup_append, hseeds', Option.some_or]
    · rw [List.mem_singleton.mp hd] at hloop'
      obtain rfl := hloop'.unique hloop
      refine ⟨r, seeds, hr, ?_, hran⟩
      rw [hhistories, List.lookup_append, hnone, Option.none_or, List.lookup_cons_self]
  · intro name seeds' hseeds'
    by_cases hname : name = loop.register
    · exact ⟨c, by simp, loop, hloop, hname.symm⟩
    · rw [hhistories, List.lookup_append, List.lookup_cons, beq_eq_false_iff_ne.mpr hname,
        List.lookup_nil, Option.or_none] at hseeds'
      obtain ⟨d, hd, hother⟩ := h.known name seeds' hseeds'
      exact ⟨d, List.mem_append_left _ hd, hother⟩

theorem Recorded.component_step (hg : g.Coherent) (hlegal : g.Legal) {layout : Layout}
    (harranges : g.Arranges layout) (h : Recorded g t earlier s)
    (hsolved : Solved g t earlier.flatten s.env s.values)
    (heq : g.dependencyComponents = earlier ++ c :: later)
    (hs' : solveComponent g t layout.loops s c = .ok s') : Recorded g t (earlier ++ [c]) s' := by
  by_cases hlength : c.length = 1
  · obtain ⟨id, rfl⟩ := List.length_eq_one_iff.mp hlength
    exact h.node_step hg hsolved heq (Outcome.mapError_eq_ok.mp hs')
  · obtain ⟨loop, hloop, hsolve⟩ := exists_solveComponent_eq t hg hlegal harranges
      (by simp [heq]) hlength
    rw [hsolve] at hs'
    exact h.loop_step hg hlegal hsolved heq hloop hs'

end Component

private theorem recorded_of_foldlM (hg : g.Coherent) (hlegal : g.Legal) {layout : Layout}
    (harranges : g.Arranges layout) {s : State}
    (hs : g.dependencyComponents.foldlM (solveComponent g t layout.loops) ⟨[], [], []⟩ = .ok s) :
    Recorded g t g.dependencyComponents s := by
  refine (Outcome.foldlM_induction (fun done s ↦ Solved g t done.flatten s.env s.values ∧
    Recorded g t done s) ?_ ⟨solved_nil, recorded_nil⟩ hs).2
  rintro done c rest heq s s' ⟨hsolved, hrecorded⟩ hstep
  exact ⟨hsolved.component_step hg hlegal harranges heq hstep,
    hrecorded.component_step hg hlegal harranges hsolved heq hstep⟩

theorem ran_of_infer (hg : g.Coherent) {result : Inference} (h : g.infer t = .ok result)
    {layout : Layout} (hlayout : g.layout = .ok layout) (hmem : loop ∈ layout.loops) :
    ∃ r seeds, g.register? loop.register = some r ∧
      result.histories.lookup loop.register = some seeds ∧ Ran g t result.nodes loop r seeds ∧
      seeds.getLast? = result.registers.lookup loop.register := by
  obtain ⟨-, hsolution⟩ := solution_of_infer hg h
  obtain ⟨hlegal, found, s, hfound, harranges, hs, -, -, hext, hhistories⟩ := infer_eq_ok hg h
  obtain rfl : found = layout := Except.ok.inj (hfound.symm.trans hlayout)
  obtain ⟨c, hc, hloop⟩ := harranges.isLoopOf loop hmem
  obtain ⟨r, seeds, hr, hseeds, hran⟩ :=
    (recorded_of_foldlM hg hlegal harranges hs).found c hc loop hloop
  have hresult := hran.mono hext
  refine ⟨r, seeds, hr, hhistories ▸ hseeds, hresult, ?_⟩
  -- a read of the loop has the last seed, and the values of the register
  obtain ⟨final, table, written, hlast, heval, -, -, htable⟩ := hresult.settled
  obtain ⟨read, hread⟩ := hloop.exists_mem_reads hg
  obtain ⟨i, hi, hvalue⟩ := hsolution.read _ read (hloop.mem_reads_iff.mp hread).1
  rw [htable read final (heval.reads read hread)] at hi
  rw [hlast, hvalue, hi]

/-- A divergence comes from the first loop that does not settle, after the components before it. -/
theorem traces_of_infer_diverged (hg : g.Coherent) {settled : List (String × List Interval)}
    {d : Divergence} (h : g.infer t = .error (.diverged settled d)) :
    ∃ layout earlier c later s, g.layout = .ok layout ∧
      layout.components = earlier ++ c :: later ∧
      earlier.foldlM (solveComponent g t layout.loops) ⟨[], [], []⟩ = .ok s ∧
      ∃ loop ∈ layout.loops, g.IsLoopOf c loop ∧ ∃ r ∈ g.registers, r.name = loop.register ∧
        ∃ ends rest, thresholds r = .ok ends ∧
          d = ⟨loop.register, loop.nodes, Interval.point r.init :: rest, t.maxIterations⟩ ∧
          Traces g t s.env loop ends 1 (Interval.point r.init :: rest) ∧
          rest.length = t.maxIterations.toNat := by
  rcases infer_stops hg h with
    ⟨cause, hcause, -⟩ | ⟨hlegal, layout, earlier, c, later, s, hlayout, harranges, heq, hs, hstep⟩
  · cases hcause
  have hc : c ∈ g.dependencyComponents := by simp [heq]
  have hsolved := solved_of_foldlM hg hlegal harranges heq hs
  obtain ⟨loop, -, hloop, hsolve, -⟩ :=
    hsolved.solveComponent_eq_error hg hlegal harranges heq hstep
  obtain ⟨r, hr, hname, ends, rest, hends, hd, htraces, hlength⟩ :=
    hsolved.solveLoop_eq_error hg hlegal heq hloop hsolve
  cases hd
  exact ⟨layout, earlier, c, later, s, hlayout, harranges.components.trans heq, hs, loop,
    mem_loops_of_isLoopOf hg harranges hc hloop, hloop, r, hr, hname, ends, rest, hends, rfl,
    htraces, hlength⟩

/-- **Histories are strictly growing chains.** The history of a loop leads from the initial value of
its register to the values that are inferred for it, with one seed for each evaluation. That of a
loop that does not settle has one seed more than evaluations are allowed, so each of these made the
seed grow. -/
theorem histories_strictly_grow (h : g.Built) (t : Tuning) :
    (∀ result, g.infer t = .ok result → ∃ layout, g.layout = .ok layout ∧
      ∀ loop ∈ layout.loops, ∃ r ∈ g.registers, r.name = loop.register ∧
        ∃ seeds final, result.histories.lookup r.name = some seeds ∧
          seeds.head? = some (Interval.point r.init) ∧ seeds.IsChain Interval.StrictlyIn ∧
          seeds.getLast? = some final ∧ result.registers.lookup r.name = some final ∧
          result.iterations.lookup r.name = some seeds.length ∧
          (seeds.length : Int) ≤ t.maxIterations) ∧
    ∀ settled d, g.infer t = .error (.diverged settled d) →
      d.previous.StrictlyIn d.current ∧ d.iterations = t.maxIterations ∧
      d.history.IsChain Interval.StrictlyIn ∧
      (d.history.length : Int) = t.maxIterations + 1 ∧
      ∃ layout earlier c later s, g.layout = .ok layout ∧
        layout.components = earlier ++ c :: later ∧
        earlier.foldlM (solveComponent g t layout.loops) ⟨[], [], []⟩ = .ok s ∧
        ∃ loop ∈ layout.loops, g.IsLoopOf c loop ∧ d.register = loop.register ∧
          d.cycle = loop.nodes ∧ ∃ r ∈ g.registers, r.name = d.register ∧
            d.history.head? = some (Interval.point r.init) ∧
            ∃ ends, thresholds r = .ok ends ∧ Traces g t s.env loop ends 1 d.history := by
  have hpos := t.maxIterations_pos
  constructor
  · intro result hresult
    obtain ⟨-, layout, s, hlayout, -⟩ := infer_eq_ok h.coherent hresult
    refine ⟨layout, hlayout, fun loop hloop ↦ ?_⟩
    obtain ⟨r, seeds, hr, hseeds, hran, hvalue⟩ :=
      ran_of_infer h.coherent hresult hlayout hloop
    obtain ⟨hdeclared, hname⟩ := Graph.mem_registers_of_register?_eq_some hr
    obtain ⟨ends, -, htraces⟩ := hran.traces
    obtain ⟨final, -, -, hlast, -⟩ := hran.settled
    rw [← hname] at hseeds hvalue
    refine ⟨r, hdeclared, hname, seeds, final, hseeds, hran.first, htraces.isChain, hlast,
      hvalue.symm.trans hlast, ?_, hran.length_le⟩
    rw [InferenceOf.lookup_iterations, hseeds, Option.map_some]
  · intro settled d herror
    obtain ⟨layout, earlier, c, later, s, hlayout, hsplit, hs, loop, hmem, hloop, r, hr, hname,
      ends, rest, hends, rfl, htraces, hlength⟩ := traces_of_infer_diverged h.coherent herror
    have hchain := htraces.isChain
    refine ⟨?_, rfl, hchain, ?_, layout, earlier, c, later, s, hlayout, hsplit, hs, loop, hmem,
      hloop, rfl, rfl, r, hr, hname, rfl, ends, hends, htraces⟩
    · apply Divergence.rel_previous_current hchain
      rw [List.length_cons]
      omega
    · rw [List.length_cons]
      omega

theorem exists_loop_of_any {name : String}
    (h : g.layout.toOption.any (·.loops.any (·.register == name)) = true) :
    ∃ layout, g.layout = .ok layout ∧ ∃ loop ∈ layout.loops, loop.register = name := by
  obtain ⟨layout, hlayout, hany⟩ := Outcome.exists_of_any h
  obtain ⟨loop, hloop, hname⟩ := List.any_eq_true.mp hany
  exact ⟨layout, hlayout, loop, hloop, beq_iff_eq.mp hname⟩

theorem exists_loop_counter : ∃ layout, Graph.counter.layout = .ok layout ∧
    ∃ loop ∈ layout.loops, loop.register = "count" :=
  exists_loop_of_any (by decide +kernel)

/-- A counter whose register has no width. -/
def runaway : Graph :=
  .ofParts [⟨.regRead (.str "total") none, 0⟩, ⟨.const 1 none, 1⟩, ⟨.binary .add 0 1 none, 2⟩,
    ⟨.regWrite (.str "total") 2 none, 3⟩]
    [⟨"total", 0, none, false⟩]

private theorem runaway_built : runaway.Built := Graph.built_of_nodup (by decide) (by decide)

/-- With one evaluation allowed, the first seed of the runaway counter is followed by the last. -/
theorem infer_runaway : runaway.infer ⟨1, 3, 32, false, by decide, by decide, by decide⟩ =
    .error (.diverged [] ⟨"total", [0, 2, 3], [Interval.point 0, ⟨0, 1, by decide⟩], 1⟩) := by
  with_unfolding_all rfl

/-- The counter of four bits settles, and the runaway counter grows with every evaluation. -/
theorem histories_of_counters :
    (∃ result seeds, Graph.counter.infer .default = .ok result ∧
      result.histories.lookup "count" = some seeds ∧
      seeds.head? = some (Interval.point 0) ∧ seeds.IsChain Interval.StrictlyIn ∧
      seeds.getLast? = result.registers.lookup "count" ∧
      result.iterations.lookup "count" = some seeds.length ∧ (seeds.length : Int) ≤ 256) ∧
    ∃ d, runaway.infer ⟨1, 3, 32, false, by decide, by decide, by decide⟩ =
        .error (.diverged [] d) ∧
      d.previous.StrictlyIn d.current ∧ (d.history.length : Int) = 1 + 1 := by
  constructor
  · obtain ⟨result, hresult⟩ := exists_infer_counter
    obtain ⟨layout, hlayout, hloops⟩ :=
      (histories_strictly_grow Graph.counter_built .default).1 result hresult
    obtain ⟨found, hfound, loop, hloop, -⟩ := exists_loop_counter
    obtain rfl : found = layout := Except.ok.inj (hfound.symm.trans hlayout)
    obtain ⟨r, hr, hname, seeds, final, hseeds, hfirst, hchain, hlast, hvalue, hcount, hlength⟩ :=
      hloops loop hloop
    obtain rfl := List.mem_singleton.mp hr
    exact ⟨result, seeds, hresult, hseeds, hfirst, hchain, hlast.trans hvalue.symm, hcount, hlength⟩
  · obtain ⟨hlast, -, -, hlength, -⟩ :=
      (histories_strictly_grow runaway_built _).2 _ _ infer_runaway
    exact ⟨_, infer_runaway, hlast, hlength⟩

end Inference

end Datapath
