import Datapath.Proofs.Inference.Totality

/-!
# Loops of registers with a width settle

The seed of a loop whose register has a width stays in the range of that width: it starts at the
initial value, and what is written is wrapped. Once widening has started, an end of the seed that
has to grow jumps to the end of the range and has then nowhere left to go. So beyond the delay there
are at most two evaluations that write something new, one for each end, and one more that does not.

## The measure

`remaining` bounds the evaluations that are still to come: those before widening starts, one for
each end of the range that the seed does not reach, and the last one. Every evaluation that writes
something new lowers it.
-/

namespace Datapath

namespace Interval

variable {range a b : Interval}

/-- The number of ends of a range that an interval does not reach. -/
def openEnds (a range : Interval) : Nat :=
  (if range.lo < a.lo then 1 else 0) + if a.hi < range.hi then 1 else 0

private theorem openEnds_le_two (a range : Interval) : a.openEnds range ≤ 2 := by
  rw [openEnds]
  split <;> split <;> omega

private theorem openEnds_le_of_leq (range : Interval) (h : a.leq b = true) :
    b.openEnds range ≤ a.openEnds range := by
  rw [leq_iff] at h
  rw [openEnds, openEnds]
  split_ifs <;> omega

theorem widen_lo (ha : a.leq range = true) (hb : b.leq range = true) :
    (a.widen b [range.lo, range.hi]).lo = if b.lo < a.lo then range.lo else a.lo := by
  rw [leq_iff] at ha hb
  have hale := a.lo_le_hi
  change widenLo a b [range.lo, range.hi] = _
  rw [widenLo]
  split
  case isTrue hgrows =>
    have hbelow : ¬ range.hi ≤ b.lo := by omega
    simp [hb.1, hbelow]
  case isFalse => rfl

theorem widen_hi (ha : a.leq range = true) (hb : b.leq range = true) :
    (a.widen b [range.lo, range.hi]).hi = if a.hi < b.hi then range.hi else a.hi := by
  rw [leq_iff] at ha hb
  have hale := a.lo_le_hi
  change widenHi a b [range.lo, range.hi] = _
  rw [widenHi]
  split
  case isTrue hgrows =>
    have habove : ¬ b.hi ≤ range.lo := by omega
    simp [hb.2, habove]
  case isFalse => rfl

private theorem widen_leq (ha : a.leq range = true) (hb : b.leq range = true) :
    (a.widen b [range.lo, range.hi]).leq range = true := by
  rw [leq_iff, widen_lo ha hb, widen_hi ha hb]
  rw [leq_iff] at ha
  constructor
  · split <;> omega
  · split <;> omega

/-- An end that has to grow reaches the end of the range. -/
theorem openEnds_widen_lt (ha : a.leq range = true) (hb : b.leq range = true)
    (hnew : ¬ b.leq a = true) :
    (a.widen b [range.lo, range.hi]).openEnds range < a.openEnds range := by
  rw [openEnds, openEnds, widen_lo ha hb, widen_hi ha hb]
  rw [leq_iff] at ha hb hnew
  split_ifs <;> omega

end Interval

namespace Inference

variable {g : Graph} {t : Tuning} {n : Node} {r : Register} {env : Env} {i : Interval}
  {values : List (String × Interval)} {name : String} {range seed written : Interval}
  {iteration : Int}

/-! ## One evaluation -/

theorem grow_leq (hseed : seed.leq range = true) (hwritten : written.leq range = true) :
    (grow t [range.lo, range.hi] iteration seed written).leq range = true := by
  rw [grow]
  split
  case isTrue => exact Interval.widen_leq hseed hwritten
  case isFalse => exact Interval.join_leq hseed hwritten

/-- The evaluations that are still to come, at most, when the seed lies in a range. -/
def remaining (t : Tuning) (range : Interval) (iteration : Int) (seed : Interval) : Nat :=
  (t.wideningDelay + 1 - iteration).toNat + seed.openEnds range + 1

/-- Before widening starts the delay runs down; afterwards an open end is reached. -/
theorem remaining_grow_lt (t : Tuning) (iteration : Int) (hseed : seed.leq range = true)
    (hwritten : written.leq range = true) (hnew : ¬ written.leq seed = true) :
    remaining t range (iteration + 1) (grow t [range.lo, range.hi] iteration seed written) <
      remaining t range iteration seed := by
  rw [remaining, remaining, grow, List.isEmpty_cons, Bool.not_false, Bool.and_true]
  by_cases hdelay : t.wideningDelay < iteration
  · rw [if_pos (decide_eq_true hdelay)]
    have := Interval.openEnds_widen_lt hseed hwritten hnew
    omega
  · rw [if_neg (by simpa using hdelay)]
    have := Interval.openEnds_le_of_leq range (Interval.leq_join_left seed written)
    omega

private theorem exists_of_transfer_write (hkind : n.kind = .regWrite)
    (hname : n.registerName? = some name)
    (h : transfer g t env values n = .ok i) : ∃ a, Inference.written g name a = .ok i := by
  obtain ⟨operands, -, h⟩ := Outcome.bind_eq_ok.mp h
  rw [hkind] at h
  cases operands with
  | nil => cases h
  | cons a rest =>
    simp only [hname] at h
    exact ⟨a, h⟩

theorem transfer_write_leq (hg : g.Coherent) (hlegal : g.Legal) (hr : r ∈ g.registers)
    (hrange : r.range = .ok (some (range.lo, range.hi))) (hkind : n.kind = .regWrite)
    (hregister : n.register = some (.str r.name)) (h : transfer g t env values n = .ok i) :
    i.leq range = true := by
  obtain ⟨a, ha⟩ := exists_of_transfer_write hkind (Node.registerName?_eq_some.mpr hregister) h
  obtain ⟨j, hj, hinside⟩ := exists_written (hg.register?_name hr) (hlegal.register r hr) a
  rw [ha, Except.ok.injEq] at hj
  subst hj
  exact Interval.leq_iff.mpr (hinside _ _ hrange)

theorem thresholds_eq (range : Interval) (hrange : r.range = .ok (some (range.lo, range.hi))) :
    thresholds r = .ok [range.lo, range.hi] := by
  have hle := range.lo_le_hi
  rw [thresholds, hrange]
  simp [Except.map, hle]

section Loop

variable {earlier later : List (List Int)} {c : List Int} {s : State} {loop : FeedbackLoop}

theorem Evaluates.written_leq (hg : g.Coherent) (hlegal : g.Legal)
    (hc : c ∈ g.dependencyComponents) (hloop : g.IsLoopOf c loop) (hr : r ∈ g.registers)
    (hname : r.name = loop.register) (hrange : r.range = .ok (some (range.lo, range.hi)))
    {base : Env} (h : Evaluates g t base loop seed env)
    (hwritten : env.lookup loop.write = some written) : written.leq range = true := by
  obtain ⟨hmem, hwrite⟩ := hloop.write_mem hg
  have hnotRead : loop.write ∉ loop.reads := fun hread ↦
    hg.ne_of_mem_reads_of_mem_writes (hloop.mem_reads_iff.mp hread).1 hwrite rfl
  obtain ⟨n, i, hn, hi, htransfer⟩ :=
    h.nodes loop.write ((hloop.mem_nodes_iff hg hlegal hc).mpr hmem) hnotRead
  rw [hwritten, Option.some_inj] at hi
  subst hi
  obtain ⟨m, hm, hkind, hregister, hid⟩ := hg.mem_writes_iff.mp hwrite
  rw [← hid, hg.node?_id hm, Option.some_inj] at hn
  subst hn
  rw [← hname] at hregister
  exact transfer_write_leq hg hlegal hr hrange hkind hregister (htransfer [])

/-- The iteration settles before the evaluations run out. -/
theorem Solved.settle_within (range : Interval) (hg : g.Coherent) (hlegal : g.Legal)
    (h : Solved g t earlier.flatten s.env s.values)
    (heq : g.dependencyComponents = earlier ++ c :: later) (hloop : g.IsLoopOf c loop)
    (hr : r ∈ g.registers) (hname : r.name = loop.register)
    (hrange : r.range = .ok (some (range.lo, range.hi))) (fuel : Nat) :
    ∀ (iteration : Int) (seed : Interval) (history : List Interval),
    seed.leq range = true → remaining t range iteration seed ≤ fuel →
    ∃ env seeds, settle g t s loop [range.lo, range.hi] fuel iteration seed history =
        .ok (env, seeds) ∧ seeds.length < history.length + remaining t range iteration seed := by
  have hc : c ∈ g.dependencyComponents := by simp [heq]
  -- The seed changes from round to round, so the induction is over all seeds in the range.
  induction fuel with
  | zero =>
    intro iteration seed history _ hfuel
    rw [remaining] at hfuel
    omega
  | succ fuel ih =>
    intro iteration seed history hseed hfuel
    obtain ⟨env, written, heval, hlookup, hround⟩ := h.exists_round hg hlegal heq hloop seed
    have hwritten := heval.written_leq hg hlegal hc hloop hr hname hrange hlookup
    rw [hround]
    by_cases hleq : written.leq seed = true
    · refine ⟨env, history.reverse, if_pos hleq, ?_⟩
      rw [List.length_reverse, remaining]
      omega
    · have hless := remaining_grow_lt t iteration hseed hwritten hleq
      obtain ⟨env', seeds, hsettle, hlength⟩ := ih (iteration + 1)
        (grow t [range.lo, range.hi] iteration seed written)
        (grow t [range.lo, range.hi] iteration seed written :: history)
        (grow_leq hseed hwritten) (by omega)
      refine ⟨env', seeds, (if_neg hleq).trans hsettle, ?_⟩
      rw [List.length_cons] at hlength
      omega

/-- The loop of a register with a width is solved, with at most three evaluations more than the
delay. -/
theorem Solved.exists_solveLoop (hg : g.Coherent) (hlegal : g.Legal)
    (h : Solved g t earlier.flatten s.env s.values)
    (heq : g.dependencyComponents = earlier ++ c :: later) (hloop : g.IsLoopOf c loop)
    (hr : r ∈ g.registers) (hname : r.name = loop.register) (hwidth : r.width.isSome)
    (hcap : t.wideningDelay + 3 ≤ t.maxIterations) :
    ∃ s' seeds, solveLoop g t s loop = .ok s' ∧
      s'.histories = s.histories ++ [(loop.register, seeds)] ∧
      (seeds.length : Int) ≤ t.wideningDelay + 3 := by
  have hdelay := t.wideningDelay_nonneg
  rcases (hlegal.register r hr).range_cases with ⟨hnone, -⟩ | ⟨lo, hi, hrange, hlo, hhi⟩
  · rw [hnone] at hwidth
    cases hwidth
  have hle : lo ≤ hi := hlo.trans hhi
  have hends : thresholds r = .ok [lo, hi] := thresholds_eq ⟨lo, hi, hle⟩ hrange
  have hseed : (Interval.point r.init).leq ⟨lo, hi, hle⟩ = true := Interval.leq_iff.mpr ⟨hlo, hhi⟩
  have hremaining : remaining t ⟨lo, hi, hle⟩ 1 (Interval.point r.init) ≤
      (t.wideningDelay + 3).toNat := by
    have := Interval.openEnds_le_two (Interval.point r.init) ⟨lo, hi, hle⟩
    rw [remaining]
    omega
  obtain ⟨env, seeds, hsettle, hlength⟩ := h.settle_within ⟨lo, hi, hle⟩ hg hlegal heq hloop hr
    hname hrange t.maxIterations.toNat 1 (Interval.point r.init) [Interval.point r.init] hseed
    (by omega)
  rw [solveLoop, solveLoopBy, ← hname, declared_eq_ok.mpr (hg.register?_name hr), Except.mapError,
    Outcome.ok_bind, hends, Except.mapError, Outcome.ok_bind]
  dsimp only
  rw [← settle, hsettle]
  refine ⟨_, seeds, rfl, rfl, ?_⟩
  rw [List.length_singleton] at hlength
  omega

/-- In the course of a run, the component of such a loop is solved as well. -/
theorem Solved.exists_solveComponent (hg : g.Coherent) (hlegal : g.Legal) {layout : Layout}
    (harranges : g.Arranges layout) (h : Solved g t earlier.flatten s.env s.values)
    (heq : g.dependencyComponents = earlier ++ c :: later) (hloop : g.IsLoopOf c loop)
    (hr : r ∈ g.registers) (hname : r.name = loop.register) (hwidth : r.width.isSome)
    (hcap : t.wideningDelay + 3 ≤ t.maxIterations) :
    ∃ s' seeds, solveComponent g t layout.loops s c = .ok s' ∧
      s'.histories = s.histories ++ [(loop.register, seeds)] ∧
      (seeds.length : Int) ≤ t.wideningDelay + 3 := by
  obtain ⟨found, hfound, hsolve⟩ := exists_solveComponent_eq t hg hlegal harranges
    (by simp [heq]) (hloop.length_ne_one hg)
  rw [hsolve, hfound.unique hloop]
  exact h.exists_solveLoop hg hlegal heq hloop hr hname hwidth hcap

end Loop

/-! ## Whole runs -/

/-- The loops of registers with a width took at most three evaluations more than the delay. -/
def Prompt (g : Graph) (t : Tuning) (histories : List (String × List Interval)) : Prop :=
  ∀ name seeds, (name, seeds) ∈ histories → ∀ r ∈ g.registers, r.name = name →
    r.width.isSome → (seeds.length : Int) ≤ t.wideningDelay + 3

theorem Prompt.component_step (hg : g.Coherent) (hlegal : g.Legal) {layout : Layout}
    (harranges : g.Arranges layout) {earlier later : List (List Int)} {c : List Int} {s s' : State}
    (hcap : t.wideningDelay + 3 ≤ t.maxIterations)
    (h : Solved g t earlier.flatten s.env s.values)
    (heq : g.dependencyComponents = earlier ++ c :: later) (hprompt : Prompt g t s.histories)
    (hs' : solveComponent g t layout.loops s c = .ok s') : Prompt g t s'.histories := by
  by_cases hlength : c.length = 1
  · obtain ⟨id, rfl⟩ := List.length_eq_one_iff.mp hlength
    rw [solveComponent, solveComponentBy, Outcome.mapError_eq_ok] at hs'
    obtain ⟨i, values, rfl⟩ := solveNode_eq_ok hs'
    exact hprompt
  · obtain ⟨loop, hloop, hsolve⟩ := exists_solveComponent_eq t hg hlegal harranges
      (by simp [heq]) hlength
    have hhistories : ∃ seeds, s'.histories = s.histories ++ [(loop.register, seeds)] := by
      rw [hsolve] at hs'
      obtain ⟨r, ends, env, seeds, -, -, -, rfl⟩ := solveLoop_eq_ok hs'
      exact ⟨seeds, rfl⟩
    obtain ⟨seeds, hhistories⟩ := hhistories
    intro name seeds' hmem r hr hname hwidth
    rw [hhistories, List.mem_append, List.mem_singleton] at hmem
    rcases hmem with hmem | hnew
    · exact hprompt name seeds' hmem r hr hname hwidth
    · cases hnew
      obtain ⟨s₁, seeds₁, hs₁, hhistories₁, hbound⟩ :=
        h.exists_solveComponent hg hlegal harranges heq hloop hr hname hwidth hcap
      rw [hs', Except.ok.injEq] at hs₁
      subst hs₁
      rw [hhistories, List.append_cancel_left_eq] at hhistories₁
      cases hhistories₁
      exact hbound

private theorem prompt_of_foldlM (hg : g.Coherent) (hlegal : g.Legal) {layout : Layout}
    (harranges : g.Arranges layout) (hcap : t.wideningDelay + 3 ≤ t.maxIterations) {s : State}
    (hs : g.dependencyComponents.foldlM (solveComponent g t layout.loops) ⟨[], [], []⟩ = .ok s) :
    Prompt g t s.histories := by
  refine (Outcome.foldlM_induction (fun done s ↦ Solved g t done.flatten s.env s.values ∧
    Prompt g t s.histories) ?_ ⟨solved_nil, by simp [Prompt]⟩ hs).2
  intro done c rest heq s s' hdone hstep
  exact ⟨hdone.1.component_step hg hlegal harranges heq hstep,
    hdone.2.component_step hg hlegal harranges hcap hdone.1 heq hstep⟩

/-- **Loops of registers with a width settle**, within three evaluations more than the delay, if
that many are allowed. So a loop that does not settle belongs to a register without a width. -/
theorem settles_of_width (h : g.Built) (hcap : t.wideningDelay + 3 ≤ t.maxIterations) :
    (∀ layout earlier c later s loop, g.layout = .ok layout →
      layout.components = earlier ++ c :: later →
      earlier.foldlM (solveComponent g t layout.loops) ⟨[], [], []⟩ = .ok s →
      g.IsLoopOf c loop → ∀ r ∈ g.registers, r.name = loop.register → r.width.isSome →
      ∃ s' seeds, solveComponent g t layout.loops s c = .ok s' ∧
        s'.histories = s.histories ++ [(loop.register, seeds)] ∧
        (seeds.length : Int) ≤ t.wideningDelay + 3) ∧
    (∀ result, g.infer t = .ok result → ∀ name count, (name, count) ∈ result.iterations →
      ∀ r ∈ g.registers, r.name = name → r.width.isSome → (count : Int) ≤ t.wideningDelay + 3) ∧
    ∀ settled d, g.infer t = .error (.diverged settled d) →
      ∃ r ∈ g.registers, r.name = d.register ∧ r.width = none := by
  have hg := h.coherent
  refine ⟨?_, ?_, ?_⟩
  · intro layout earlier c later s loop hlayout heq hs hloop r hr hname hwidth
    obtain ⟨hlegal, harranges⟩ := Graph.legal_of_computeLayout hg (hg.layout_eq ▸ hlayout)
    rw [harranges.components] at heq
    exact (solved_of_foldlM hg hlegal harranges heq hs).exists_solveComponent hg hlegal harranges
      heq hloop hr hname hwidth hcap
  · intro result hresult name count hcount r hr hname hwidth
    obtain ⟨layout, hlayout, hresult⟩ := Outcome.bind_eq_ok.mp hresult
    obtain ⟨s, hs, hresult⟩ := Outcome.bind_eq_ok.mp hresult
    obtain ⟨values, -, hresult⟩ := Outcome.bind_eq_ok.mp hresult
    obtain ⟨nodes, -, hresult⟩ := Outcome.bind_eq_ok.mp hresult
    cases hresult
    rw [Outcome.mapError_eq_ok, hg.layout_eq] at hlayout
    obtain ⟨hlegal, harranges⟩ := Graph.legal_of_computeLayout hg hlayout
    rw [harranges.components] at hs
    obtain ⟨⟨_, seeds⟩, hmem, heq⟩ := List.mem_map.mp hcount
    cases heq
    exact prompt_of_foldlM hg hlegal harranges hcap hs name seeds hmem r hr hname hwidth
  · intro settled d herror
    rcases infer_eq_error hg herror with
      ⟨cause, hcause, -⟩ | ⟨hlegal, layout, earlier, c, later, s, harranges, heq, hs, hstep⟩
    · cases hcause
    obtain ⟨loop, seeds, hloop, hsolve, hd⟩ :=
      hs.solveComponent_eq_error hg hlegal harranges heq hstep
    cases hd
    obtain ⟨r, hr, hname⟩ := hlegal.declared_of_mem hg (Or.inr (hloop.write_mem hg).2)
    refine ⟨r, hr, hname, Option.not_isSome_iff_eq_none.mp fun hwidth ↦ ?_⟩
    obtain ⟨s', seeds, hs', -⟩ := hs.exists_solveLoop hg hlegal heq hloop hr hname hwidth hcap
    rw [hs'] at hsolve
    cases hsolve

/-- The four bits of the counter settle within six evaluations. -/
theorem settles_counter : ∃ result, Graph.counter.infer .default = .ok result ∧
    result.iterations.map (·.1) = ["count"] ∧
    ∀ name count, (name, count) ∈ result.iterations → (count : Int) ≤ 3 + 3 := by
  obtain ⟨result, hresult⟩ := exists_infer_counter
  have hnames : (Graph.counter.infer .default).toOption.map (·.iterations.map (·.1)) =
      some ["count"] := by decide +kernel
  rw [hresult] at hnames
  have hnames : result.iterations.map (·.1) = ["count"] := Option.some_inj.mp hnames
  refine ⟨result, hresult, hnames, fun name count hmem ↦ ?_⟩
  have hname : name ∈ result.iterations.map (·.1) := List.mem_map_of_mem hmem
  rw [hnames, List.mem_singleton] at hname
  exact (settles_of_width (t := .default) Graph.counter_built (by decide)).2.1 result hresult name
    count hmem ⟨"count", 0, some 4, false⟩ (by simp [Graph.counter]) hname.symm rfl

end Inference

end Datapath
