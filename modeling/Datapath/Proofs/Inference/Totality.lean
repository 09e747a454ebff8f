import Datapath.Proofs.Inference.Solution
import Datapath.Proofs.Interval.Optimality

/-!
# Exact inference fails only for a reason

An evaluation looks up what other evaluations have found: operands, the write of a register, the
node at which a loop is closed. In a legal graph every one of these lookups succeeds, because a
component is solved after those it depends on and the nodes of a loop are taken in the order of
operations. In exact arithmetic two failures are left: a graph that is not legal, and a loop that
does not settle.
-/

namespace Datapath

namespace Graph

variable {g : Graph} {n : Node} {r : Register}

/-- A legal register has no range, or one that contains its initial value. -/
theorem RegisterLegal.range_cases (h : g.RegisterLegal r) :
    (r.width = none ∧ r.range = .ok none) ∨
      ∃ lo hi, r.range = .ok (some (lo, hi)) ∧ lo ≤ r.init ∧ r.init ≤ hi := by
  cases hwidth : r.width with
  | none => exact Or.inl ⟨rfl, by rw [Register.range, hwidth]⟩
  | some width =>
    obtain ⟨lo, hi, hbits, -⟩ := exists_bitRange (h.width_pos width hwidth) r.signed
    refine Or.inr ⟨lo, hi, by rw [Register.range, hwidth]; simp only [hbits]; rfl, ?_⟩
    exact (represents_iff_of_bitRange hbits r.init).mp (h.init_held width hwidth)

end Graph

theorem Interval.exists_make {lo hi : Int} (h : lo ≤ hi) :
    ∃ i, make lo hi = .ok i ∧ i.lo = lo ∧ i.hi = hi := by
  rw [make, dif_pos h]
  exact ⟨_, rfl, rfl, rfl⟩

private theorem Tuning.exists_inputInterval (t : Tuning) : ∃ i, t.inputInterval = .ok i :=
  Interval.exists_ofWidth t.inputBits_pos t.inputSigned

namespace Inference

variable {g : Graph} {t : Tuning} {n : Node} {r : Register} {env : Env} {id : Int}
  {values : List (String × Interval)} {name : String}

/-! ## One node -/

theorem exists_written (hr : g.register? r.name = some r) (h : g.RegisterLegal r) (a : Interval) :
    ∃ i, written g r.name a = .ok i ∧
      ∀ lo hi, r.range = .ok (some (lo, hi)) → lo ≤ i.lo ∧ i.hi ≤ hi := by
  have hdeclared := declared_eq_ok.mpr hr
  rcases h.range_cases with ⟨-, hrange⟩ | ⟨lo, hi, hrange, hlo, hhi⟩
  · refine ⟨a, ?_, fun lo hi h ↦ by simp [hrange] at h⟩
    rw [written, hdeclared, Outcome.ok_bind, hrange]
    rfl
  · rw [written, hdeclared, Outcome.ok_bind, hrange]
    simp only [Outcome.ok_bind, Interval.wrap, Except.ok.injEq, Option.some.injEq, Prod.mk.injEq]
    by_cases hfits : lo ≤ a.lo ∧ a.hi ≤ hi
    · refine ⟨a, if_pos hfits, ?_⟩
      rintro _ _ ⟨rfl, rfl⟩
      exact hfits
    · obtain ⟨i, hmake, hilo, hihi⟩ := Interval.exists_make (hlo.trans hhi)
      refine ⟨i, (if_neg hfits).trans hmake, ?_⟩
      rintro _ _ ⟨rfl, rfl⟩
      exact ⟨hilo.ge, hihi.le⟩

/-- A node that is no read evaluates when its operands are known. -/
theorem exists_transfer (t : Tuning) (values : List (String × Interval)) (hg : g.Coherent)
    (hwell : g.WellFormed) (hn : n ∈ g.nodes) (hkind : n.kind ≠ .regRead)
    (hoperands : ∀ o ∈ n.operands, ∃ i, env.lookup o = some i) :
    ∃ i, transfer g t env values n = .ok i := by
  have hlegal := hwell.node n hn
  have hlookup : ∀ o ∈ n.operands, ∃ i, lookup env o = .ok i := fun o ho ↦
    (hoperands o ho).imp fun _ ↦ lookup_eq_ok.mpr
  obtain ⟨operands, hmap⟩ := Outcome.exists_mapM_eq_ok hlookup
  have hlength : n.operands.length = operands.length := (Outcome.mapM_eq_ok.mp hmap).length_eq
  obtain ⟨hleast, hexact⟩ := hlegal.arity
  rw [hlength] at hleast hexact
  have hone : n.kind.minOperands = 1 → n.kind ≠ .mux → ∃ a, operands = [a] := by
    intro hmin hmux
    exact List.length_eq_one_iff.mp ((hexact hmux).trans hmin)
  have htwo : n.kind.minOperands = 2 → n.kind ≠ .mux → ∃ a b, operands = [a, b] := by
    intro hmin hmux
    exact List.length_eq_two.mp ((hexact hmux).trans hmin)
  rw [transfer, hmap, Outcome.ok_bind]
  cases hcase : n.kind with
  | input =>
    cases hbounds : n.bounds with
    | none => exact t.exists_inputInterval
    | some bounds =>
      obtain ⟨i, hi, -⟩ := Interval.exists_make (hlegal.bounds_ordered bounds.1 bounds.2 hbounds)
      exact ⟨i, hi⟩
  | regRead => exact absurd hcase hkind
  | const =>
    obtain ⟨value, hvalue⟩ := hlegal.value_given hcase
    rw [hvalue]
    exact ⟨_, rfl⟩
  | add | sub | mul | div | compare =>
    obtain ⟨a, b, rfl⟩ := htwo (by rw [hcase]; rfl) (by rw [hcase]; decide)
    exact ⟨_, rfl⟩
  | mux =>
    rw [hcase, Kind.minOperands] at hleast
    rcases operands with _ | ⟨condition, _ | ⟨a, rest⟩⟩
    · simp at hleast
    · simp at hleast
    · exact ⟨_, rfl⟩
  | varRef | binding | output =>
    obtain ⟨a, rfl⟩ := hone (by rw [hcase]; rfl) (by rw [hcase]; decide)
    exact ⟨_, rfl⟩
  | fieldGet =>
    obtain ⟨a, rfl⟩ := hone (by rw [hcase]; rfl) (by rw [hcase]; decide)
    cases hbounds : n.bounds with
    | none => exact ⟨a, rfl⟩
    | some bounds =>
      obtain ⟨i, hi, -⟩ := Interval.exists_make (hlegal.bounds_ordered bounds.1 bounds.2 hbounds)
      exact ⟨i, hi⟩
  | regWrite =>
    obtain ⟨a, rfl⟩ := hone (by rw [hcase]; rfl) (by rw [hcase]; decide)
    obtain ⟨r, hr, hregister⟩ := hlegal.register_declared (by rw [hcase]; rfl)
    obtain ⟨i, hi, -⟩ := exists_written (hg.register?_name hr) (hwell.register r hr) a
    rw [Node.registerName?_eq_some.mpr hregister]
    exact ⟨i, hi⟩

theorem exists_heldValues
    (hwrite : ∀ write ∈ g.writes (.str r.name), ∃ i, env.lookup write = some i) :
    ∃ i, heldValues g env r = .ok i := by
  rw [heldValues]
  cases hsome : g.write? (.str r.name) with
  | none => exact ⟨_, rfl⟩
  | some write =>
    obtain ⟨i, hi⟩ := hwrite write (Graph.mem_writes_of_write?_eq_some hsome)
    exact ⟨_, by simp only [lookup_eq_ok.mpr hi]; rfl⟩

/-! ## Components -/

section Component

variable {earlier later : List (List Int)} {c : List Int} {s : State} {loop : FeedbackLoop}

/-- The operands of a node are solved, or stand in its component. -/
theorem Solved.operand_cases (hg : g.Coherent) (hlegal : g.Legal)
    (h : Solved g t earlier.flatten env values)
    (heq : g.dependencyComponents = earlier ++ c :: later) (hn : n ∈ g.nodes) (hid : n.id ∈ c)
    {o : Int} (ho : o ∈ n.operands) : o ∈ c ∨ ∃ i, env.lookup o = some i := by
  rw [← hg.operands_id hn] at ho
  rw [h.known]
  exact (Graph.dependencies_decompose hg).closed _ _ _ heq n.id hid o
    ((hlegal.mem_dependencies_iff hg).mpr (.operand ho))

theorem Solved.exists_solveNode (hg : g.Coherent) (hlegal : g.Legal)
    (h : Solved g t earlier.flatten s.env s.values)
    (heq : g.dependencyComponents = earlier ++ [id] :: later) :
    ∃ s', solveNode g t s id = .ok s' := by
  have hmem : id ∈ g.ids := Graph.mem_ids_of_mem_component hg (c := [id]) (by simp [heq]) (by simp)
  obtain ⟨n, hn, rfl⟩ := List.mem_map.mp hmem
  obtain ⟨i, hi⟩ : ∃ i, transfer g t s.env s.values n = .ok i := by
    by_cases hkind : n.kind = .regRead
    · obtain ⟨r, hr, hregister, hread⟩ := hlegal.exists_register_of_read hg hn hkind
      rw [transfer_read hg hlegal hn hkind (Node.registerName?_eq_some.mpr hregister),
        registerValues]
      cases s.values.lookup r.name with
      | some i => exact ⟨i, rfl⟩
      | none =>
        simp only [declared_eq_ok.mpr (hg.register?_name hr), Outcome.ok_bind]
        exact exists_heldValues fun write hwrite ↦
          (h.known write).mpr (write_mem_of_read hg hlegal heq hread hwrite)
    · refine exists_transfer t s.values hg hlegal.toWellFormed hn hkind fun o ho ↦ ?_
      rcases h.operand_cases hg hlegal heq hn (List.mem_singleton_self _) ho with hself | hknown
      · rw [← hg.operands_id hn, List.mem_singleton.mp hself] at ho
        exact absurd (Relation.TransGen.single ho) (hlegal.acyclic n.id)
      · exact hknown
  rw [solveNode, solveNodeBy, nodeAt_eq_ok.mpr (hg.node?_id hn), Outcome.ok_bind, hi]
  exact ⟨_, rfl⟩

/-- If each step adds an entry for its item, then the items are known after a fold, and so is
whatever was. -/
theorem known_of_foldlM {f : Env → Int → Except Mishap Env} {ids : List Int} {base : Env}
    (hf : ∀ env id env', f env id = .ok env' → ∃ i, env' = (id, i) :: env)
    (h : ids.foldlM f base = .ok env) :
    ∀ o, (o ∈ ids ∨ ∃ i, base.lookup o = some i) → ∃ i, env.lookup o = some i := by
  refine Outcome.foldlM_induction
    (fun done env ↦ ∀ o, (o ∈ done ∨ ∃ i, base.lookup o = some i) → ∃ i, env.lookup o = some i)
    ?_ (by simp) h
  intro done id rest _ env env' hknown hstep o ho
  obtain ⟨i, rfl⟩ := hf env id env' hstep
  by_cases hid : o = id
  · exact ⟨i, by rw [hid, List.lookup_cons_self]⟩
  · rw [lookup_cons_of_ne hid]
    refine hknown o (ho.imp_left fun hmem ↦ ?_)
    exact (List.mem_append.mp hmem).resolve_right fun hlast ↦ hid (List.mem_singleton.mp hlast)

/-- An operand in a loop is evaluated before the node: neither the node nor a later one is its
operand. -/
theorem Scheduled.mem_of_mem_operands (h : Scheduled g loop) {done rest : List Int} {o : Int}
    (hnodes : loop.nodes = done ++ id :: rest) (ho : o ∈ g.operands id) (hmem : o ∈ loop.nodes) :
    o ∈ done := by
  have hpairwise := h.pairwise
  rw [hnodes, List.pairwise_append, List.pairwise_cons] at hpairwise
  rw [hnodes, List.mem_append, List.mem_cons] at hmem
  rcases hmem with hmem | rfl | hmem
  · exact hmem
  · exact absurd ho (h.irrefl _)
  · exact absurd ho (hpairwise.2.1.1 o hmem)

/-- One evaluation of a loop succeeds where the operands from outside are known. -/
theorem exists_pass (hg : g.Coherent) (hlegal : g.Legal) (hc : c ∈ g.dependencyComponents)
    (hloop : g.IsLoopOf c loop)
    (hknown : ∀ n ∈ g.nodes, n.id ∈ c → ∀ o ∈ n.operands, o ∈ c ∨ ∃ i, s.env.lookup o = some i)
    (seed : Interval) : ∃ env, pass g t s loop seed = .ok env := by
  have hscheduled := scheduled_of_isLoopOf hg hlegal hc hloop
  cases hpass : pass g t s loop seed with
  | ok env => exact ⟨env, rfl⟩
  | error mishap =>
    -- It would fail at a node of the loop, and there whatever the node needs is known.
    obtain ⟨done, id, rest, env, hnodes, hdone, hstep⟩ := Outcome.exists_of_foldlM_eq_error hpass
    have hfound := known_of_foldlM (fun env id env' hstep ↦ by
      split at hstep
      case isTrue =>
        cases hstep
        exact ⟨_, rfl⟩
      case isFalse =>
        obtain ⟨n, -, hstep⟩ := Outcome.bind_eq_ok.mp hstep
        obtain ⟨i, -, hstep⟩ := Outcome.bind_eq_ok.mp hstep
        cases hstep
        exact ⟨i, rfl⟩) hdone
    have hid : id ∈ c := (hloop.mem_nodes_iff hg hlegal hc).mp (by simp [hnodes])
    obtain ⟨n, hn, rfl⟩ := List.mem_map.mp (Graph.mem_ids_of_mem_component hg hc hid)
    split at hstep
    case isTrue => cases hstep
    case isFalse hnot =>
      have hkind : n.kind ≠ .regRead := fun hread ↦
        hnot (hscheduled.reads_complete n.id (by simp [hnodes]) n (hg.node?_id hn) hread)
      have hoperands : ∀ o ∈ n.operands, ∃ i, env.lookup o = some i := by
        intro o ho
        refine hfound o ((hknown n hn hid o ho).imp_left fun hoc ↦ ?_)
        rw [← hg.operands_id hn] at ho
        exact hscheduled.mem_of_mem_operands hnodes ho
          ((hloop.mem_nodes_iff hg hlegal hc).mpr hoc)
      rw [nodeAt_eq_ok.mpr (hg.node?_id hn), Outcome.ok_bind] at hstep
      obtain ⟨i, hi⟩ := exists_transfer t s.values hg hlegal.toWellFormed hn hkind hoperands
      rw [hi] at hstep
      cases hstep

/-- So the loop has an evaluation, in which its write has an interval. -/
theorem exists_evaluation (hg : g.Coherent) (hlegal : g.Legal) (hc : c ∈ g.dependencyComponents)
    (hloop : g.IsLoopOf c loop)
    (hknown : ∀ n ∈ g.nodes, n.id ∈ c → ∀ o ∈ n.operands, o ∈ c ∨ ∃ i, s.env.lookup o = some i)
    (seed : Interval) : ∃ env written, pass g t s loop seed = .ok env ∧
      Evaluates g t s.env loop seed env ∧ env.lookup loop.write = some written := by
  obtain ⟨env, hpass⟩ := exists_pass hg hlegal hc hloop hknown seed
  obtain ⟨heval, -⟩ := pass_spec (scheduled_of_isLoopOf hg hlegal hc hloop) hpass
  have hwrite := (hloop.mem_nodes_iff hg hlegal hc).mpr (hloop.write_mem hg).1
  obtain ⟨written, hwritten⟩ := heval.exists_lookup hwrite
  exact ⟨env, written, hpass, heval, hwritten⟩

/-- One round of the iteration: the loop is evaluated, and its write has an interval. -/
theorem Solved.exists_round (hg : g.Coherent) (hlegal : g.Legal)
    (h : Solved g t earlier.flatten s.env s.values)
    (heq : g.dependencyComponents = earlier ++ c :: later) (hloop : g.IsLoopOf c loop)
    (seed : Interval) : ∃ env written, Evaluates g t s.env loop seed env ∧
      env.lookup loop.write = some written ∧
      ∀ thresholds fuel iteration history,
        settle g t s loop thresholds (fuel + 1) iteration seed history =
          if written.leq seed then .ok (env, history.reverse)
          else settle g t s loop thresholds fuel (iteration + 1)
            (grow t thresholds iteration seed written)
            (grow t thresholds iteration seed written :: history) := by
  obtain ⟨env, written, hpass, heval, hwritten⟩ := exists_evaluation hg hlegal (by simp [heq])
    hloop (fun n hn hid o ho ↦ h.operand_cases hg hlegal heq hn hid ho) seed
  refine ⟨env, written, heval, hwritten, fun thresholds fuel iteration history ↦ ?_⟩
  rw [settle, settleBy, ← pass, hpass]
  simp only [lookup_eq_ok.mpr hwritten]
  rfl

/-- An iteration fails only by going on for too long. -/
theorem Solved.settle_eq_error (hg : g.Coherent) (hlegal : g.Legal)
    (h : Solved g t earlier.flatten s.env s.values)
    (heq : g.dependencyComponents = earlier ++ c :: later) (hloop : g.IsLoopOf c loop)
    {ends : List Int} {fuel : Nat} {iteration : Int} {seed : Interval} {e : Failure}
    (herror : settle g t s loop ends fuel iteration seed [seed] = .error e) :
    ∃ rest,
      e = .diverged s.histories ⟨loop.register, loop.nodes, seed :: rest, t.maxIterations⟩ ∧
      Traces g t s.env loop ends iteration (seed :: rest) ∧ rest.length = fuel := by
  have hc : c ∈ g.dependencyComponents := by simp [heq]
  obtain ⟨rest, htraces, ⟨_, _, _, hok, -⟩ | ⟨hdiverged, hlength⟩ | ⟨_, stuck, -, hmissing⟩⟩ :=
    settle_cases t s ends (scheduled_of_isLoopOf hg hlegal hc hloop) fuel iteration seed []
  · rw [hok] at herror
    cases herror
  · rw [hdiverged] at herror
    cases herror
    exact ⟨rest, rfl, htraces, Nat.succ.inj hlength⟩
  · -- the loop can be evaluated at every seed
    obtain ⟨env, written, hpass, -, hwritten⟩ := exists_evaluation hg hlegal hc hloop
      (fun n hn hid o ho ↦ h.operand_cases hg hlegal heq hn hid ho) stuck
    exact absurd hwritten (hmissing env written hpass)

private theorem exists_thresholds (h : g.RegisterLegal r) : ∃ ends, thresholds r = .ok ends := by
  rcases h.range_cases with ⟨-, hrange⟩ | ⟨lo, hi, hrange, -⟩
  · exact ⟨[], by rw [thresholds, hrange]; rfl⟩
  · exact ⟨[min lo hi, max lo hi], by rw [thresholds, hrange]; rfl⟩

/-- A loop is solved, or its seeds grow in each of the evaluations that are allowed. -/
theorem Solved.solveLoop_eq_error (hg : g.Coherent) (hlegal : g.Legal)
    (h : Solved g t earlier.flatten s.env s.values)
    (heq : g.dependencyComponents = earlier ++ c :: later) (hloop : g.IsLoopOf c loop)
    {e : Failure} (herror : solveLoop g t s loop = .error e) :
    ∃ r ∈ g.registers, r.name = loop.register ∧ ∃ ends rest, thresholds r = .ok ends ∧
      e = .diverged s.histories
        ⟨loop.register, loop.nodes, Interval.point r.init :: rest, t.maxIterations⟩ ∧
      Traces g t s.env loop ends 1 (Interval.point r.init :: rest) ∧
      rest.length = t.maxIterations.toNat := by
  obtain ⟨r, hr, hname⟩ := hlegal.declared_of_mem hg (Or.inr (hloop.write_mem hg).2)
  have hdeclared := declared_eq_ok.mpr (hg.register?_name hr)
  obtain ⟨ends, hends⟩ := exists_thresholds (hlegal.register r hr)
  rw [solveLoop, solveLoopBy, ← hname, hdeclared, Except.mapError, Outcome.ok_bind, hends,
    Except.mapError, Outcome.ok_bind] at herror
  rcases Outcome.bind_eq_error.mp herror with hsettle | ⟨_, -, herror⟩
  · obtain ⟨rest, he, htraces, hlength⟩ := h.settle_eq_error hg hlegal heq hloop hsettle
    exact ⟨r, hr, hname, ends, rest, hends, he, htraces, hlength⟩
  · cases herror

/-- A component of several nodes is solved as a loop, which is found by the first of them. -/
theorem exists_solveComponent_eq (t : Tuning) (hg : g.Coherent) (hlegal : g.Legal)
    {layout : Layout} (harranges : g.Arranges layout) (hc : c ∈ g.dependencyComponents)
    (hlength : c.length ≠ 1) : ∃ loop, g.IsLoopOf c loop ∧
      ∀ s, solveComponent g t layout.loops s c = solveLoop g t s loop := by
  have hdecompose := Graph.dependencies_decompose hg
  rcases c with _ | ⟨id, _ | ⟨id', rest⟩⟩
  · exact absurd rfl (hdecompose.ne_nil [] hc)
  · exact absurd rfl hlength
  · obtain ⟨loop, hmem, hloop⟩ := harranges.exists_loop _ hc hlength
    have hsome : (layout.loops.find? (·.nodes.contains id)).isSome := by
      refine List.find?_isSome.mpr ⟨loop, hmem, ?_⟩
      exact List.contains_iff_mem.mpr ((hloop.mem_nodes_iff hg hlegal hc).mpr List.mem_cons_self)
    obtain ⟨found, hfound⟩ := Option.isSome_iff_exists.mp hsome
    obtain ⟨d, hd, hfoundd⟩ := harranges.isLoopOf found (List.mem_of_find?_eq_some hfound)
    have hcontains : id ∈ found.nodes := by simpa using List.find?_some hfound
    have hid := (hfoundd.mem_nodes_iff hg hlegal hd).mp hcontains
    obtain rfl := hdecompose.eq_of_mem hc hd List.mem_cons_self hid
    refine ⟨found, hfoundd, fun s ↦ ?_⟩
    rw [solveComponent, solveComponentBy, hfound]
    · rfl
    · simp

theorem Solved.solveComponent_eq_error (hg : g.Coherent) (hlegal : g.Legal) {layout : Layout}
    (harranges : g.Arranges layout) (h : Solved g t earlier.flatten s.env s.values)
    (heq : g.dependencyComponents = earlier ++ c :: later) {e : Failure}
    (herror : solveComponent g t layout.loops s c = .error e) :
    ∃ loop seeds, g.IsLoopOf c loop ∧ solveLoop g t s loop = .error e ∧
      e = .diverged s.histories ⟨loop.register, loop.nodes, seeds, t.maxIterations⟩ := by
  have hc : c ∈ g.dependencyComponents := by simp [heq]
  by_cases hlength : c.length = 1
  · obtain ⟨id, rfl⟩ := List.length_eq_one_iff.mp hlength
    obtain ⟨s', hs'⟩ := h.exists_solveNode hg hlegal heq
    obtain ⟨mishap, hmishap, -⟩ := Outcome.mapError_eq_error.mp herror
    cases hs'.symm.trans hmishap
  · obtain ⟨loop, hloop, hsolve⟩ := exists_solveComponent_eq t hg hlegal harranges hc hlength
    rw [hsolve] at herror
    obtain ⟨r, -, -, ends, rest, -, he, -⟩ := h.solveLoop_eq_error hg hlegal heq hloop herror
    exact ⟨loop, _, hloop, herror, he⟩

end Component

/-! ## The whole graph -/

/-- The values of registers that nobody asked for can be found when all nodes are known. -/
theorem exists_completeRegisters (hg : g.Coherent) {s : State}
    (hknown : ∀ id ∈ g.ids, ∃ i, s.env.lookup id = some i) :
    ∃ values, completeRegisters g s = .ok values := by
  cases hvalues : completeRegisters g s with
  | ok values => exact ⟨values, rfl⟩
  | error mishap =>
    obtain ⟨done, r, rest, values, -, -, herror⟩ := Outcome.exists_of_foldlM_eq_error hvalues
    have hwrite : ∀ write ∈ g.writes (.str r.name), ∃ i, s.env.lookup write = some i :=
      fun write hwrite ↦ hknown write (hg.mem_ids_of_mem_writes hwrite)
    obtain ⟨i, hi⟩ := exists_heldValues hwrite
    split at herror
    case isTrue => cases herror
    case isFalse =>
      rw [hi] at herror
      cases herror

/-- Inference fails where validation does, or at the first component that cannot be solved. -/
theorem infer_stops (hg : g.Coherent) {e : Failure} (h : g.infer t = .error e) :
    (∃ cause, e = .malformed cause ∧ ¬ g.Legal) ∨
      g.Legal ∧ ∃ layout earlier c later s, g.layout = .ok layout ∧ g.Arranges layout ∧
        g.dependencyComponents = earlier ++ c :: later ∧
        earlier.foldlM (solveComponent g t layout.loops) ⟨[], [], []⟩ = .ok s ∧
        solveComponent g t layout.loops s c = .error e := by
  rw [Graph.infer, inferBy, hg.layout_eq] at h
  cases hlayout : g.computeLayout with
  | error cause =>
    rw [hlayout] at h
    cases h
    exact Or.inl ⟨cause, rfl, (Graph.diagnosed_of_computeLayout hg hlayout).2⟩
  | ok layout =>
    obtain ⟨hlegal, harranges⟩ := Graph.legal_of_computeLayout hg hlayout
    refine Or.inr ⟨hlegal, ?_⟩
    rw [hlayout, Except.mapError, Outcome.ok_bind, harranges.components] at h
    rcases Outcome.bind_eq_error.mp h with hfold | ⟨s, hs, h⟩
    · obtain ⟨earlier, c, later, s, heq, hs, hstep⟩ := Outcome.exists_of_foldlM_eq_error hfold
      exact ⟨layout, earlier, c, later, s, hg.layout_eq.trans hlayout, harranges, heq, hs, hstep⟩
    · -- all components are solved, so nothing is missing from the result
      have hsolved := solved_of_foldlM hg hlegal harranges (List.append_nil _).symm hs
      have hknown : ∀ id ∈ g.ids, ∃ i, s.env.lookup id = some i := fun id hid ↦
        (hsolved.known id).mpr ((Graph.mem_flatten_dependencyComponents_iff hg).mpr hid)
      obtain ⟨values, hvalues⟩ := exists_completeRegisters hg hknown
      have hentry : ∀ id ∈ g.ids, ∃ entry,
          (do return (id, ← lookup s.env id) : Except Mishap (Int × Interval)) = .ok entry := by
        intro id hid
        obtain ⟨i, hi⟩ := hknown id hid
        exact ⟨(id, i), by rw [lookup_eq_ok.mpr hi]; rfl⟩
      obtain ⟨nodes, hnodes⟩ := Outcome.exists_mapM_eq_ok hentry
      rw [hvalues, Except.mapError, Outcome.ok_bind, hnodes] at h
      cases h

/-- The components before the one at which inference fails are solved. -/
theorem infer_eq_error (hg : g.Coherent) {e : Failure} (h : g.infer t = .error e) :
    (∃ cause, e = .malformed cause ∧ ¬ g.Legal) ∨
      g.Legal ∧ ∃ layout earlier c later s, g.Arranges layout ∧
        g.dependencyComponents = earlier ++ c :: later ∧
        Solved g t earlier.flatten s.env s.values ∧
        solveComponent g t layout.loops s c = .error e := by
  refine (infer_stops hg h).imp_right ?_
  rintro ⟨hlegal, layout, earlier, c, later, s, -, harranges, heq, hs, hstep⟩
  exact ⟨hlegal, layout, earlier, c, later, s, harranges, heq,
    solved_of_foldlM hg hlegal harranges heq hs, hstep⟩

theorem map_fst_of_infer {result : Inference} (h : g.infer t = .ok result) :
    result.nodes.map (·.1) = g.ids := by
  obtain ⟨layout, -, h⟩ := Outcome.bind_eq_ok.mp h
  obtain ⟨s, -, h⟩ := Outcome.bind_eq_ok.mp h
  obtain ⟨values, -, h⟩ := Outcome.bind_eq_ok.mp h
  obtain ⟨nodes, hnodes, h⟩ := Outcome.bind_eq_ok.mp h
  cases h
  have hall := Outcome.mapM_eq_ok.mp (Outcome.mapError_eq_ok.mp hnodes)
  rw [← List.forall₂_eq_eq_eq, List.forall₂_map_left_iff]
  refine hall.flip.imp fun entry id hentry ↦ ?_
  obtain ⟨i, -, hentry⟩ := Outcome.bind_eq_ok.mp hentry
  cases hentry
  rfl

end Inference

end Datapath
