import Datapath.Proofs.Inference.Locality
import Datapath.Proofs.Interval.Monotonicity

/-!
# Larger declared ranges give larger intervals

Two graphs may differ in the declared ranges of their nodes, where each range of the first lies
inside that of the second. As long as no seed is widened, inference then gives every node and every
register of the first graph an interval inside that of the second.

## Two runs of a loop

The runs of a loop in the two graphs may take different numbers of evaluations, so they are not
compared seed by seed. The run in the second graph ends at a seed that covers what is written there.
An evaluation in the first graph at a smaller seed writes less, so the join of the two is still
below that seed, and the run in the first graph never gets above it. Widening would break this: it
jumps beyond what is written.
-/

namespace Datapath

/-- A node declares a range inside that of another, and computes the same otherwise. -/
structure Node.Narrows (n m : Node) : Prop where
  id : n.id = m.id
  kind : n.kind = m.kind
  operands : n.operands = m.operands
  value : n.value = m.value
  register : n.register = m.register
  /-- Both declare a range or neither does, and the ends are in order. -/
  bounds : Option.Rel (fun a b ↦ b.1 ≤ a.1 ∧ a.2 ≤ b.2) n.bounds m.bounds

theorem Node.Narrows.bounds_cases {n m : Node} (h : n.Narrows m) :
    n.bounds = none ∧ m.bounds = none ∨ ∃ lo hi lo' hi', n.bounds = some (lo, hi) ∧
      m.bounds = some (lo', hi') ∧ lo' ≤ lo ∧ hi ≤ hi' := by
  have hbounds := h.bounds
  cases hn : n.bounds with
  | none =>
    rw [hn] at hbounds
    generalize m.bounds = declared at hbounds ⊢
    cases hbounds
    exact Or.inl ⟨rfl, rfl⟩
  | some range =>
    rw [hn] at hbounds
    generalize m.bounds = declared at hbounds ⊢
    cases hbounds with
    | some hends => exact Or.inr ⟨_, _, _, _, rfl, rfl, hends⟩

namespace Graph

/-- Two graphs have the same registers, and node by node the first declares the smaller range. -/
structure Narrows (g g' : Graph) : Prop where
  /-- The nodes of the first declare ranges inside those of the second. -/
  nodes : List.Forall₂ Node.Narrows g.nodes g'.nodes
  /-- They have the same registers. -/
  registers : g.registers = g'.registers

variable {g g' : Graph} {n : Node} {id : Int} {c : List Int} {loop : FeedbackLoop}

theorem Narrows.refl (g : Graph) : g.Narrows g := by
  refine ⟨List.forall₂_same.mpr fun n _ ↦ ⟨rfl, rfl, rfl, rfl, rfl, ?_⟩, rfl⟩
  cases n.bounds with
  | none => exact .none
  | some range => exact .some ⟨le_rfl, le_rfl⟩

theorem IsLoopOf.congr (hg : g.Coherent) (hg' : g'.Coherent) (h : g.outline = g'.outline)
    (hloop : g.IsLoopOf c loop) : g'.IsLoopOf c loop where
  closing := by
    rw [← hloop.closing]
    exact view_congr (·.closingRegisters c) (·.closingRegisters_outline c) h.symm
  nodes := by
    rw [hloop.nodes, ← order_counted hg, ← order_counted hg', view_congr counted counted_outline h]
  reads := by
    rw [hloop.reads, view_congr (·.reads _) (·.reads_outline _) h]

namespace Narrows

variable (hg : g.Coherent) (hg' : g'.Coherent)

include hg hg'

theorem outline_eq (h : g.Narrows g') : g.outline = g'.outline := by
  have hnodes : List.Forall₂ (· = ·) (g.nodes.map Node.outline) (g'.nodes.map Node.outline) := by
    rw [List.forall₂_map_left_iff, List.forall₂_map_right_iff]
    refine h.nodes.imp fun n m hnm ↦ ?_
    rw [Node.outline, Node.outline, hnm.id, hnm.kind, hnm.operands, hnm.register]
  rw [List.forall₂_eq_eq_eq] at hnodes
  have hindex : g.index = g'.index := by
    rw [hg.index_eq, hg'.index_eq, ← ofNodes_outline, hnodes, ofNodes_outline]
  rw [outline, outline, hnodes, hindex]

theorem dependencyComponents_eq (h : g.Narrows g') :
    g.dependencyComponents = g'.dependencyComponents :=
  view_congr dependencyComponents dependencyComponents_outline (h.outline_eq hg hg')

theorem reads_eq (h : g.Narrows g') (register : Json) : g.reads register = g'.reads register :=
  view_congr (·.reads register) (·.reads_outline register) (h.outline_eq hg hg')

theorem write?_eq (h : g.Narrows g') (register : Json) : g.write? register = g'.write? register :=
  view_congr (·.write? register) (·.write?_outline register) (h.outline_eq hg hg')

theorem isLoopOf_iff (h : g.Narrows g') : g.IsLoopOf c loop ↔ g'.IsLoopOf c loop :=
  ⟨.congr hg hg' (h.outline_eq hg hg'), .congr hg' hg (h.outline_eq hg hg').symm⟩

omit hg hg'

theorem register?_eq (h : g.Narrows g') (name : String) : g.register? name = g'.register? name := by
  rw [register?, register?, h.registers]

theorem exists_node (h : g.Narrows g') (hg' : g'.Coherent) (hn : n ∈ g.nodes) :
    ∃ m ∈ g'.nodes, g'.node? n.id = some m ∧ n.Narrows m := by
  obtain ⟨m, hm, hnm⟩ := Outcome.exists_mem_of_forall₂ h.nodes hn
  exact ⟨m, hm, hnm.id ▸ hg'.node?_id hm, hnm⟩

end Narrows

end Graph

namespace Inference

variable {g g' : Graph} {t : Tuning} {n m : Node} {env env' base base' : Env}
  {values values' : List (String × Interval)} {i i' a a' : Interval} {loop : FeedbackLoop}
  {seed seed' final final' : Interval} {iteration : Int} {x : Int} {r : Register}

/-! ## Evaluating one node -/

/-- Two tables have intervals under a key, of which the first lies inside the second. -/
def Within {κ : Type} [BEq κ] (table table' : List (κ × Interval)) (key : κ) : Prop :=
  ∃ i i', table.lookup key = some i ∧ table'.lookup key = some i' ∧ i.leq i' = true

theorem Within.leq (h : Within env env' x) (hi : env.lookup x = some i)
    (hi' : env'.lookup x = some i') : i.leq i' = true := by
  obtain ⟨j, j', hj, hj', hleq⟩ := h
  rw [hi] at hj
  rw [hi'] at hj'
  cases hj
  cases hj'
  exact hleq

theorem written_mono {name : String} (hregister : g.register? name = g'.register? name)
    (ha : a.leq a' = true) (h : written g name a = .ok i) (h' : written g' name a' = .ok i') :
    i.leq i' = true := by
  rw [written, declared, hregister, ← declared] at h
  obtain ⟨r, hr, h⟩ := Outcome.bind_eq_ok.mp h
  obtain ⟨r', hr', h'⟩ := Outcome.bind_eq_ok.mp h'
  rw [hr] at hr'
  cases hr'
  obtain ⟨range, hrange, h⟩ := Outcome.bind_eq_ok.mp h
  obtain ⟨range', hrange', h'⟩ := Outcome.bind_eq_ok.mp h'
  rw [hrange] at hrange'
  cases hrange'
  cases range with
  | none =>
    cases h
    cases h'
    exact ha
  | some range => exact Interval.wrap_mono h h' ha

/-- The function by which an operation on two operands is carried out. -/
def binary? : Kind → Option (Interval → Interval → Interval)
  | .add => some Interval.add
  | .sub => some Interval.sub
  | .mul => some Interval.mul
  | .div => some Interval.div
  | .compare => some Interval.compare
  | _ => none

private theorem binary?_mono {kind : Kind} {op : Interval → Interval → Interval} {b b' : Interval}
    (hop : binary? kind = some op) (ha : a.leq a' = true) (hb : b.leq b' = true) :
    (op a b).leq (op a' b') = true := by
  cases kind <;> cases hop
  · exact Interval.add_mono ha hb
  · exact Interval.sub_mono ha hb
  · exact Interval.mul_mono ha hb
  · exact Interval.div_mono ha hb
  · exact Interval.leq_refl _

theorem transfer_of_binary? {op : Interval → Interval → Interval} (hop : binary? n.kind = some op)
    (h : transfer g t env values n = .ok i) :
    ∃ a b rest, n.operands.mapM (lookup env) = .ok (a :: b :: rest) ∧ i = op a b := by
  obtain ⟨operands, hoperands, h⟩ := Outcome.bind_eq_ok.mp h
  cases hcase : n.kind with
  | add | sub | mul | div | compare =>
    rw [hcase] at hop
    cases hop
    simp only [hcase] at h
    rcases operands with _ | ⟨a, _ | ⟨b, rest⟩⟩
    · cases h
    · cases h
    · cases h
      exact ⟨a, b, rest, hoperands, rfl⟩
  | _ =>
    rw [hcase] at hop
    cases hop

theorem operands_within (h : n.Narrows m) (henv : ∀ o ∈ n.operands, Within env env' o)
    {as as' : List Interval} (has : n.operands.mapM (lookup env) = .ok as)
    (has' : m.operands.mapM (lookup env') = .ok as') :
    List.Forall₂ (fun a a' : Interval ↦ a.leq a' = true) as as' := by
  rw [← h.operands] at has'
  exact Outcome.forall₂_of_mapM_eq_ok has has' fun o ho a a' ha ha' ↦
    (henv o ho).leq (lookup_eq_ok.mp ha) (lookup_eq_ok.mp ha')

/-- Larger operands and larger declared ranges give larger intervals. -/
theorem transfer_mono (h : n.Narrows m) (hkind : n.kind ≠ .regRead)
    (hregister : ∀ name, g.register? name = g'.register? name)
    (henv : ∀ o ∈ n.operands, Within env env' o) (hi : transfer g t env values n = .ok i)
    (hi' : transfer g' t env' values' m = .ok i') : i.leq i' = true := by
  rcases hop : binary? n.kind with _ | op
  case some =>
    obtain ⟨a, b, rest, has, rfl⟩ := transfer_of_binary? hop hi
    obtain ⟨a', b', rest', has', rfl⟩ := transfer_of_binary? (h.kind ▸ hop) hi'
    obtain _ | ⟨ha, _ | ⟨hb, -⟩⟩ := operands_within h henv has has'
    exact binary?_mono hop ha hb
  -- The other kinds differ in what they read of the node.
  obtain ⟨as, has, hi⟩ := Outcome.bind_eq_ok.mp hi
  obtain ⟨as', has', hi'⟩ := Outcome.bind_eq_ok.mp hi'
  have hoperands := operands_within h henv has has'
  have hname : m.registerName? = n.registerName? := by
    rw [Node.registerName?, Node.registerName?, h.register]
  rw [← h.kind, ← h.value] at hi'
  cases hcase : n.kind with
  | regRead => exact absurd hcase hkind
  | add | sub | mul | div | compare =>
    rw [hcase] at hop
    cases hop
  | const =>
    cases hvalue : n.value with
    | none =>
      simp only [hcase, hvalue] at hi
      cases hi
    | some value =>
      simp only [hcase, hvalue] at hi hi'
      cases hi
      cases hi'
      exact Interval.leq_refl _
  | input =>
    rcases h.bounds_cases with ⟨hn, hm⟩ | ⟨lo, up, lo', up', hn, hm, hlo, hup⟩
    · simp only [hcase, hn] at hi
      simp only [hcase, hm, hi] at hi'
      cases hi'
      exact Interval.leq_refl _
    · simp only [hcase, hn] at hi
      simp only [hcase, hm] at hi'
      exact Interval.make_mono hi hi' hlo hup
  | mux =>
    simp only [hcase] at hi hi'
    rcases hoperands with _ | ⟨_, hbranches⟩
    · cases hi
    · exact Interval.hull_mono hi hi' hbranches
  | varRef | binding | output =>
    simp only [hcase] at hi hi'
    rcases hoperands with _ | ⟨ha, _⟩
    · cases hi
    · cases hi
      cases hi'
      exact ha
  | fieldGet =>
    simp only [hcase] at hi hi'
    rcases hoperands with _ | ⟨ha, _⟩
    · cases hi
    · rcases h.bounds_cases with ⟨hn, hm⟩ | ⟨lo, up, lo', up', hn, hm, hlo, hup⟩
      · simp only [hn] at hi
        simp only [hm] at hi'
        cases hi
        cases hi'
        exact ha
      · simp only [hn] at hi
        simp only [hm] at hi'
        exact Interval.make_mono hi hi' hlo hup
  | regWrite =>
    simp only [hcase] at hi hi'
    rcases hoperands with _ | ⟨ha, _⟩
    · cases hi
    · rw [hname] at hi'
      cases hsome : n.registerName? with
      | none =>
        rw [hsome] at hi
        cases hi
      | some name =>
        rw [hsome] at hi hi'
        exact written_mono (hregister name) ha hi hi'

/-! ## Loops -/

/-- At a larger seed, and with larger intervals outside, a loop is evaluated to larger intervals. -/
theorem Evaluates.within (h : g.Narrows g') (hg : g.Coherent) (hlegal : g.Legal)
    (hg' : g'.Coherent) (hscheduled : Scheduled g loop)
    (hids : ∀ id ∈ loop.nodes, id ∈ g.ids)
    (hbase : ∀ id ∈ loop.nodes, ∀ o ∈ g.operands id, o ∉ loop.nodes → Within base base' o)
    (hseed : seed.leq seed' = true) (heval : Evaluates g t base loop seed env)
    (heval' : Evaluates g' t base' loop seed' env') : ∀ id ∈ loop.nodes, Within env env' id := by
  intro id hid
  have hall : ∀ id ∈ loop.nodes, id ∈ g.readyOrder := fun id hid ↦
    hlegal.mem_readyOrder hg (hids id hid)
  -- by induction on the place in the order of operations
  induction hplace : g.readyOrder.idxOf id using Nat.strong_induction_on generalizing id with
  | _ place ih =>
    by_cases hread : id ∈ loop.reads
    · exact ⟨seed, seed', heval.reads id hread, heval'.reads id hread, hseed⟩
    · obtain ⟨n, i, hn, hi, htransfer⟩ := heval.nodes id hid hread
      obtain ⟨n', i', hn', hi', htransfer'⟩ := heval'.nodes id hid hread
      obtain ⟨hmem, rfl⟩ := Graph.mem_nodes_of_node?_eq_some hn
      obtain ⟨m, -, hm, hnarrows⟩ := h.exists_node hg' hmem
      obtain rfl : n' = m := Option.some_inj.mp (hn'.symm.trans hm)
      have hkind : n.kind ≠ .regRead := fun hk ↦ hread (hscheduled.reads_complete _ hid n hn hk)
      refine ⟨i, i', hi, hi', ?_⟩
      refine transfer_mono hnarrows hkind h.register?_eq (fun o ho ↦ ?_) (htransfer [])
        (htransfer' [])
      have hoperand : o ∈ g.operands n.id := by rwa [hg.operands_id hmem]
      by_cases hinside : o ∈ loop.nodes
      · have hbefore := Graph.idxOf_lt_of_mem_operands hg (hall _ hid) hoperand
        exact ih _ (hplace ▸ hbefore) o hinside rfl
      · -- what the tables say outside the loop is what the bases say
        obtain ⟨j, hj⟩ := exists_lookup_of_transfer (htransfer []) ho
        obtain ⟨j', hj'⟩ := exists_lookup_of_transfer (htransfer' []) (hnarrows.operands ▸ ho)
        exact ⟨j, j', hj, hj', (hbase _ hid o hoperand hinside).leq
          (heval.outside o hinside j hj) (heval'.outside o hinside j' hj')⟩

theorem grow_eq_join {ends : List Int} (h : ends = [] ∨ iteration ≤ t.wideningDelay)
    (seed written : Interval) : grow t ends iteration seed written = seed.join written := by
  rw [grow, if_neg]
  rcases h with rfl | hdelay
  · simp
  · simp [hdelay]

theorem thresholds_eq_nil (h : r.width = none) : thresholds r = .ok [] := by
  rw [thresholds, Register.range, h]
  rfl

/-- Without thresholds, a run stays below every seed that covers what smaller seeds write. -/
theorem Settles.leq_of_covers (hrun : Settles g t base loop [] iteration seed final env)
    (hcovers : ∀ seed env written, seed.leq final' = true → Evaluates g t base loop seed env →
      env.lookup loop.write = some written → written.leq final' = true)
    (hseed : seed.leq final' = true) : final.leq final' = true := by
  induction hrun with
  | stop => exact hseed
  | @next iteration seed written final env env' heval hwritten _ _ ih =>
    refine ih ?_
    rw [grow_eq_join (Or.inl rfl)]
    exact Interval.join_leq hseed (hcovers seed env written hseed heval hwritten)

/-! ## Two results -/

/-- Results of inference for two graphs of which the first declares the smaller ranges. -/
structure NarrowedRuns (g g' : Graph) (t : Tuning) (result result' : Inference) : Prop where
  /-- The first graph declares the smaller ranges. -/
  narrows : g.Narrows g'
  coherent : g.Coherent
  legal : g.Legal
  /-- The first result solves the equations of the first graph. -/
  solution : Solution g t result
  coherent' : g'.Coherent
  legal' : g'.Legal
  /-- The second result solves the equations of the second graph. -/
  solution' : Solution g' t result'
  /-- The registers of loops have no width. -/
  unsized : ∀ c ∈ g.dependencyComponents, ∀ loop, g.IsLoopOf c loop → ∀ r ∈ g.registers,
    r.name = loop.register → r.width = none

namespace NarrowedRuns

variable {result result' : Inference} {c : List Int}

theorem node_step (h : NarrowedRuns g g' t result result') (hn : n ∈ g.nodes)
    (hkind : n.kind ≠ .regRead)
    (hoperands : ∀ o ∈ n.operands, Within result.nodes result'.nodes o) :
    Within result.nodes result'.nodes n.id := by
  obtain ⟨m, hm, -, hnarrows⟩ := h.narrows.exists_node h.coherent' hn
  obtain ⟨i, hi, htransfer⟩ := h.solution.node n hn hkind
  obtain ⟨i', hi', htransfer'⟩ := h.solution'.node m hm (hnarrows.kind ▸ hkind)
  rw [← hnarrows.id] at hi'
  exact ⟨i, i', hi, hi', transfer_mono hnarrows hkind h.narrows.register?_eq hoperands
    (htransfer []) (htransfer' [])⟩

theorem loop_step (h : NarrowedRuns g g' t result result') (hc : c ∈ g.dependencyComponents)
    (hlength : c.length ≠ 1)
    (hbase : ∀ id ∈ c, ∀ o ∈ g.operands id, o ∉ c → Within result.nodes result'.nodes o) :
    ∀ x ∈ c, Within result.nodes result'.nodes x := by
  obtain ⟨loop, hloop⟩ := Graph.exists_isLoopOf h.coherent h.legal hc hlength
  have hnodes : ∀ {y : Int}, y ∈ loop.nodes ↔ y ∈ c := hloop.mem_nodes_iff h.coherent h.legal hc
  obtain ⟨hwrite, hwrites⟩ := hloop.write_mem h.coherent
  obtain ⟨r, hr, hname⟩ := h.legal.declared_of_mem h.coherent (Or.inr hwrites)
  have hthresholds := thresholds_eq_nil (h.unsized c hc loop hloop r hr hname)
  -- both runs start at the initial value of the register
  obtain ⟨ends, final, table, hends, hrun, hext⟩ :=
    h.solution.exists_run h.coherent h.legal hc hloop hr hname.symm
  have hc' := h.narrows.dependencyComponents_eq h.coherent h.coherent' ▸ hc
  have hloop' := (h.narrows.isLoopOf_iff h.coherent h.coherent').mp hloop
  obtain ⟨ends', final', table', hends', hrun', hext'⟩ :=
    h.solution'.exists_run h.coherent' h.legal' hc' hloop' (h.narrows.registers ▸ hr) hname.symm
  rw [hthresholds] at hends hends'
  cases hends
  cases hends'
  obtain ⟨heval', written', hwritten', hleq'⟩ := hrun'.evaluates
  have hwithin : ∀ {seed env}, seed.leq final' = true → Evaluates g t result.nodes loop seed env →
      ∀ id ∈ loop.nodes, Within env table' id := fun hseed heval ↦
    heval.within h.narrows h.coherent h.legal h.coherent'
      (scheduled_of_isLoopOf h.coherent h.legal hc hloop)
      (fun id hid ↦ Graph.mem_ids_of_mem_component h.coherent hc (hnodes.mp hid))
      (fun id hid o ho hout ↦ hbase id (hnodes.mp hid) o ho (mt hnodes.mpr hout)) hseed heval'
  have hfinal : final.leq final' = true := by
    refine hrun.leq_of_covers (fun seed env written hseed heval hwritten ↦ ?_) hrun'.seed_leq
    have hleq := (hwithin hseed heval loop.write (hnodes.mpr hwrite)).leq hwritten hwritten'
    exact Interval.leq_trans hleq hleq'
  intro x hx
  obtain ⟨i, i', hi, hi', hleq⟩ := hwithin hfinal hrun.evaluates.1 x (hnodes.mpr hx)
  exact ⟨i, i', hext x i hi, hext' x i' hi', hleq⟩

theorem read_within_iff (h : NarrowedRuns g g' t result result') {name : String}
    (hread : x ∈ g.reads (.str name)) :
    Within result.nodes result'.nodes x ↔ Within result.registers result'.registers name := by
  obtain ⟨i, hi, hvalue⟩ := h.solution.read name x hread
  have hread' := h.narrows.reads_eq h.coherent h.coherent' (.str name) ▸ hread
  obtain ⟨i', hi', hvalue'⟩ := h.solution'.read name x hread'
  rw [Within, Within, hi, hi', hvalue, hvalue']

/-- The values of a register follow from its write, or from a read in its loop. -/
theorem register_step (h : NarrowedRuns g g' t result result') (hr : r ∈ g.registers)
    (hwrites : ∀ write ∈ g.writes (.str r.name), Within result.nodes result'.nodes write)
    (hloops : ∀ c ∈ g.dependencyComponents, ∀ loop, g.IsLoopOf c loop → loop.register = r.name →
      ∀ x ∈ c, Within result.nodes result'.nodes x) :
    Within result.registers result'.registers r.name := by
  by_cases hloop : ∃ c ∈ g.dependencyComponents, ∃ loop, g.IsLoopOf c loop ∧ loop.register = r.name
  · obtain ⟨c, hc, loop, hloop, hname⟩ := hloop
    obtain ⟨read, hread⟩ := hloop.exists_mem_reads h.coherent
    obtain ⟨hreads, hmem⟩ := hloop.mem_reads_iff.mp hread
    rw [hname] at hreads
    exact (h.read_within_iff hreads).mp (hloops c hc loop hloop hname read hmem)
  · obtain ⟨i, hi, hsolved⟩ := h.solution.register r hr
    obtain ⟨i', hi', hsolved'⟩ := h.solution'.register r (h.narrows.registers ▸ hr)
    refine ⟨i, i', hi, hi', ?_⟩
    rcases hsolved with ⟨hc, hisLoop, hname⟩ | ⟨-, hheld⟩
    · exact absurd ⟨_, hc, _, hisLoop, hname⟩ hloop
    · rcases hsolved' with ⟨hc, hisLoop, hname⟩ | ⟨-, hheld'⟩
      · rw [← h.narrows.dependencyComponents_eq h.coherent h.coherent'] at hc
        have hisLoop' := (h.narrows.isLoopOf_iff h.coherent h.coherent').mpr hisLoop
        exact absurd ⟨_, hc, _, hisLoop', hname⟩ hloop
      · rw [heldValues] at hheld hheld'
        rw [← h.narrows.write?_eq h.coherent h.coherent'] at hheld'
        cases hwrite : g.write? (.str r.name) with
        | none =>
          rw [hwrite] at hheld hheld'
          cases hheld
          cases hheld'
          exact Interval.leq_refl _
        | some write =>
          simp only [hwrite] at hheld hheld'
          obtain ⟨j, hj, hjoin⟩ := Outcome.bind_eq_ok.mp hheld
          obtain ⟨j', hj', hjoin'⟩ := Outcome.bind_eq_ok.mp hheld'
          cases hjoin
          cases hjoin'
          have hleq := (hwrites write (Graph.mem_writes_of_write?_eq_some hwrite)).leq
            (lookup_eq_ok.mp hj) (lookup_eq_ok.mp hj')
          exact Interval.join_mono (Interval.leq_refl _) hleq

theorem component_step (h : NarrowedRuns g g' t result result') {earlier later : List (List Int)}
    (heq : g.dependencyComponents = earlier ++ c :: later)
    (hearlier : ∀ y ∈ earlier.flatten, Within result.nodes result'.nodes y) :
    ∀ x ∈ c, Within result.nodes result'.nodes x := by
  have hdecompose := Graph.dependencies_decompose h.coherent
  have hc : c ∈ g.dependencyComponents := by simp [heq]
  have hoperand : ∀ y ∈ c, ∀ o ∈ g.operands y, o ∉ c → Within result.nodes result'.nodes o := by
    intro y hy o ho hout
    have hmem := (h.legal.mem_dependencies_iff h.coherent).mpr (.operand ho)
    exact hearlier o ((hdecompose.closed _ _ _ heq y hy o hmem).resolve_left hout)
  by_cases hlength : c.length = 1
  · obtain ⟨x, rfl⟩ := List.length_eq_one_iff.mp hlength
    intro y hy
    obtain rfl := List.mem_singleton.mp hy
    obtain ⟨n, hn, rfl⟩ := List.mem_map.mp (Graph.mem_ids_of_mem_component h.coherent hc hy)
    by_cases hkind : n.kind = .regRead
    · obtain ⟨r, hr, -, hread⟩ := h.legal.exists_register_of_read h.coherent hn hkind
      have hwrites : ∀ write ∈ g.writes (.str r.name), write ∈ earlier.flatten := fun _ ↦
        write_mem_of_read h.coherent h.legal heq hread
      -- the write of a loop comes before this read, and the loop with it
      have hloops : ∀ d ∈ g.dependencyComponents, ∀ loop, g.IsLoopOf d loop →
          loop.register = r.name → ∀ x ∈ d, Within result.nodes result'.nodes x := by
        intro d hd loop hloop hname x hx
        obtain ⟨hwd, hwrite⟩ := hloop.write_mem h.coherent
        rw [hname] at hwrite
        obtain ⟨e, he, hwe⟩ := List.mem_flatten.mp (hwrites _ hwrite)
        have hcomponent : e ∈ g.dependencyComponents := by
          rw [heq]
          exact List.mem_append_left _ he
        obtain rfl := hdecompose.eq_of_mem hd hcomponent hwd hwe
        exact hearlier x (List.mem_flatten.mpr ⟨d, he, hx⟩)
      exact (h.read_within_iff hread).mpr
        (h.register_step hr (fun write hwrite ↦ hearlier write (hwrites write hwrite)) hloops)
    · refine h.node_step hn hkind fun o ho ↦ ?_
      rw [← h.coherent.operands_id hn] at ho
      refine hoperand n.id hy o ho fun hmem ↦ ?_
      exact h.legal.acyclic n.id (Relation.TransGen.single (List.mem_singleton.mp hmem ▸ ho))
  · exact h.loop_step hc hlength hoperand

end NarrowedRuns

/-- **Inference is monotone in the declared ranges** as long as nothing is widened. If one graph
declares ranges inside those of another, and no register that feeds back into itself has a width,
then every interval of the first result lies inside that of the second. -/
theorem infer_mono {result result' : Inference} (hg : g.Built) (hg' : g'.Built)
    (hnarrows : g.Narrows g')
    (hunsized : ∀ layout, g.layout = .ok layout → ∀ loop ∈ layout.loops, ∀ r ∈ g.registers,
      r.name = loop.register → r.width = none)
    (hinfer : g.infer t = .ok result) (hinfer' : g'.infer t = .ok result') :
    (∀ id ∈ g.ids, ∃ i i', result.nodes.lookup id = some i ∧ result'.nodes.lookup id = some i' ∧
      i.leq i' = true) ∧
    ∀ r ∈ g.registers, ∃ i i', result.registers.lookup r.name = some i ∧
      result'.registers.lookup r.name = some i' ∧ i.leq i' = true := by
  obtain ⟨hlegal, hsolution⟩ := solution_of_infer hg.coherent hinfer
  obtain ⟨hlegal', hsolution'⟩ := solution_of_infer hg'.coherent hinfer'
  obtain ⟨layout, hlayout, -⟩ := Outcome.bind_eq_ok.mp hinfer
  rw [Outcome.mapError_eq_ok] at hlayout
  obtain ⟨-, harranges⟩ := Graph.legal_of_computeLayout hg.coherent
    (hg.coherent.layout_eq ▸ hlayout)
  have h : NarrowedRuns g g' t result result' :=
    ⟨hnarrows, hg.coherent, hlegal, hsolution, hg'.coherent, hlegal', hsolution',
      fun c hc loop hloop ↦ hunsized layout hlayout loop
        (mem_loops_of_isLoopOf hg.coherent harranges hc hloop)⟩
  have hall : ∀ x ∈ g.dependencyComponents.flatten, Within result.nodes result'.nodes x :=
    forall_mem_flatten fun earlier c later heq ↦ h.component_step heq
  refine ⟨fun id hid ↦ ?_, fun r hr ↦ h.register_step hr (fun write hwrite ↦ ?_) ?_⟩
  · exact hall id ((Graph.mem_flatten_dependencyComponents_iff hg.coherent).mpr hid)
  · exact hall write ((Graph.mem_flatten_dependencyComponents_iff hg.coherent).mpr
      (hg.coherent.mem_ids_of_mem_writes hwrite))
  · exact fun c hc _ _ _ x hx ↦ hall x (List.mem_flatten.mpr ⟨c, hc, hx⟩)

/-- A register without a width that keeps its value or takes that of an input. -/
def latch (most : Int) : Graph :=
  .ofParts [⟨.input none (some 0) (some most) none, 0⟩, ⟨.regRead (.str "kept") none, 1⟩,
    ⟨.mux 0 [1, 0] none, 2⟩, ⟨.regWrite (.str "kept") 2 none, 3⟩]
    [⟨"kept", 0, none, false⟩]

theorem latch_built (most : Int) : (latch most).Built :=
  Graph.built_of_nodup (show ([0, 1, 2, 3] : List Int).Nodup by decide) (by decide)

private theorem latch_narrows {most most' : Int} (h : most ≤ most') :
    (latch most).Narrows (latch most') where
  nodes := by
    refine .cons ⟨rfl, rfl, rfl, rfl, rfl, .some ⟨le_rfl, h⟩⟩ (.cons ?_ (.cons ?_ (.cons ?_ .nil)))
    · exact ⟨rfl, rfl, rfl, rfl, rfl, .none⟩
    · exact ⟨rfl, rfl, rfl, rfl, rfl, .none⟩
    · exact ⟨rfl, rfl, rfl, rfl, rfl, .none⟩
  registers := rfl

theorem infer_latch_mono : ∃ result result', (latch 3).infer .default = .ok result ∧
    (latch 7).infer .default = .ok result' ∧ ∃ i i', result.registers.lookup "kept" = some i ∧
      result'.registers.lookup "kept" = some i' ∧ i.leq i' = true := by
  obtain ⟨result, hresult⟩ :=
    Outcome.exists_of_isOk (show ((latch 3).infer .default).isOk = true by decide +kernel)
  obtain ⟨result', hresult'⟩ :=
    Outcome.exists_of_isOk (show ((latch 7).infer .default).isOk = true by decide +kernel)
  have hunsized : ∀ r ∈ (latch 3).registers, r.width = none := by simp [latch]
  obtain ⟨-, hregisters⟩ := infer_mono (latch_built 3) (latch_built 7) (latch_narrows (by decide))
    (fun _ _ _ _ r hr _ ↦ hunsized r hr) hresult hresult'
  exact ⟨result, result', hresult, hresult', hregisters ⟨"kept", 0, none, false⟩ (by simp [latch])⟩

end Inference

end Datapath
