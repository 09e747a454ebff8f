import Datapath.Proofs.Inference.Loop

/-!
# Inference solves the dataflow equations

The components are solved one after another, each after those it depends on. An interval that has
been found is final: later components add to the table and to the values of registers, and change
nothing. So what holds of a part of the graph when it has been solved holds of the result.

## Registers

The values of a register are asked for by its reads. In a loop the reads take part in the iteration,
and its last seed becomes the value. Outside of a loop the first read finds the value, the others
find it recorded. A register that nobody reads is completed at the end. In all cases a register with
a loop is not asked for before its loop is solved, because a read depends on the write.
-/

namespace Datapath.Inference

variable {g : Graph} {t : Tuning} {n : Node} {r : Register} {env env' : Env} {id : Int}
  {i : Interval} {values values' : List (String × Interval)} {name : String}

/-! ## Larger tables -/

theorem declared_eq_ok : declared g name = .ok r ↔ g.register? name = some r := by
  rw [declared]
  cases g.register? name <;> simp

theorem Extends.refl (env : Env) : Extends env env := fun _ _ h ↦ h

theorem extends_cons (h : env.lookup id = none) : Extends env ((id, i) :: env) := by
  intro o j hj
  rw [lookup_cons_of_ne ?_, hj]
  rintro rfl
  rw [h] at hj
  cases hj

/-- A node is evaluated after its operands. -/
theorem exists_lookup_of_transfer (h : transfer g t env values n = .ok i) {o : Int}
    (ho : o ∈ n.operands) : ∃ j, env.lookup o = some j := by
  rw [transfer] at h
  obtain ⟨operands, hoperands, -⟩ := Outcome.bind_eq_ok.mp h
  obtain ⟨j, hj⟩ := Outcome.exists_of_mapM_eq_ok hoperands ho
  exact ⟨j, lookup_eq_ok.mp hj⟩

theorem transfer_extends (hext : Extends env env') (hkind : n.kind ≠ .regRead)
    (h : transfer g t env values n = .ok i) : transfer g t env' values' n = .ok i := by
  rw [← h]
  refine transfer_congr ⟨rfl, rfl, rfl, rfl, rfl⟩ hkind (fun _ _ _ ↦ rfl) fun o ho ↦ ?_
  obtain ⟨j, hj⟩ := exists_lookup_of_transfer h ho
  rw [hj, hext o j hj]

theorem heldValues_extends (hext : Extends env env') (h : heldValues g env r = .ok i) :
    heldValues g env' r = .ok i := by
  rw [heldValues] at h ⊢
  cases hwrite : g.write? (.str r.name) with
  | none =>
    rw [hwrite] at h
    exact h
  | some write =>
    simp only [hwrite] at h ⊢
    obtain ⟨written, hwritten, hjoin⟩ := Outcome.bind_eq_ok.mp h
    exact Outcome.bind_eq_ok.mpr
      ⟨written, lookup_eq_ok.mpr (hext write written (lookup_eq_ok.mp hwritten)), hjoin⟩

theorem heldValues_congr {g' : Graph}
    (hwrite : g.write? (.str r.name) = g'.write? (.str r.name))
    (hlookup : ∀ write, g.write? (.str r.name) = some write →
      env.lookup write = env'.lookup write) : heldValues g env r = heldValues g' env' r := by
  rw [heldValues, heldValues, ← hwrite]
  cases hsome : g.write? (.str r.name) with
  | none => rfl
  | some write => simp only [lookup, hlookup write hsome]

/-! ## Registers -/

/-- How the values of a register are found: as the last seed of its loop, or from its initial value
and its write. -/
inductive RegisterSolved (g : Graph) (t : Tuning) (env : Env) (r : Register) : Interval → Prop
  /-- The register closes a loop. -/
  | loop {c : List Int} {loop : FeedbackLoop} {ends : List Int} {final : Interval} {table : Env} :
    c ∈ g.dependencyComponents → g.IsLoopOf c loop → loop.register = r.name →
    thresholds r = .ok ends →
    Settles g t env loop ends 1 (Interval.point r.init) final table → Extends table env →
    RegisterSolved g t env r final
  /-- The register closes no loop. -/
  | held {i : Interval} :
    (∀ c ∈ g.dependencyComponents, ∀ loop, g.IsLoopOf c loop → loop.register ≠ r.name) →
    heldValues g env r = .ok i → RegisterSolved g t env r i

theorem RegisterSolved.mono (h : RegisterSolved g t env r i) (hext : Extends env env') :
    RegisterSolved g t env' r i := by
  cases h with
  | loop hc hloop hname hends hrun htable =>
    exact .loop hc hloop hname hends (hrun.mono hext) fun id j hj ↦ hext id j (htable id j hj)
  | held hnone hheld => exact .held hnone (heldValues_extends hext hheld)

/-- The intervals of some nodes, and the values of the registers that they read, solve the dataflow
equations. -/
structure Solved (g : Graph) (t : Tuning) (done : List Int) (env : Env)
    (values : List (String × Interval)) : Prop where
  /-- The table knows these nodes. -/
  known : ∀ id, (∃ i, env.lookup id = some i) ↔ id ∈ done
  /-- A node follows from its operands. -/
  node : ∀ n ∈ g.nodes, n.id ∈ done → n.kind ≠ .regRead →
    ∃ i, env.lookup n.id = some i ∧ ∀ values, transfer g t env values n = .ok i
  /-- A read has the values of its register. -/
  read : ∀ name, ∀ id ∈ g.reads (.str name), id ∈ done →
    ∃ i, env.lookup id = some i ∧ values.lookup name = some i
  /-- Only these nodes have asked for values. -/
  asked : ∀ name i, values.lookup name = some i → ∃ read ∈ g.reads (.str name), read ∈ done
  /-- The values that were asked for are right. -/
  value : ∀ r ∈ g.registers, ∀ i, values.lookup r.name = some i → RegisterSolved g t env r i

theorem solved_nil : Solved g t [] [] [] := by
  constructor <;> simp

/-! ## Steps -/

section Step

variable {earlier later : List (List Int)} {c : List Int} {s s' : State}

namespace Solved

theorem lookup_eq_none (hg : g.Coherent) (h : Solved g t earlier.flatten env values)
    (heq : g.dependencyComponents = earlier ++ c :: later) (hid : id ∈ c) :
    env.lookup id = none := by
  rw [Option.eq_none_iff_forall_ne_some]
  intro i hi
  exact (Graph.dependencies_decompose hg).notMem_flatten_of_mem heq hid ((h.known id).mp ⟨i, hi⟩)

/-- What is known stays as it is when only the intervals of a new component change. -/
theorem extends_of_frame (hg : g.Coherent) (h : Solved g t earlier.flatten env values)
    (heq : g.dependencyComponents = earlier ++ c :: later)
    (hframe : ∀ id ∉ c, env'.lookup id = env.lookup id) : Extends env env' := by
  intro id i hi
  rw [hframe id ?_, hi]
  intro hmem
  rw [h.lookup_eq_none hg heq hmem] at hi
  cases hi

/-- A register whose write is solved but whose values were not asked for closes no loop: the reads
in the loop would have asked for them. -/
theorem register_ne (hg : g.Coherent) (h : Solved g t earlier.flatten env values)
    (heq : g.dependencyComponents = earlier ++ later) (hnone : values.lookup name = none)
    (hwrites : ∀ write ∈ g.writes (.str name), write ∈ earlier.flatten) :
    ∀ d ∈ g.dependencyComponents, ∀ loop, g.IsLoopOf d loop → loop.register ≠ name := by
  rintro d hd loop hloop rfl
  obtain ⟨hmem, hwrite⟩ := hloop.write_mem hg
  obtain ⟨e, he, hwritten⟩ := List.mem_flatten.mp (hwrites _ hwrite)
  have hcomponent : e ∈ g.dependencyComponents := by
    rw [heq]
    exact List.mem_append_left _ he
  have hsame := (Graph.dependencies_decompose hg).eq_of_mem hd hcomponent hmem hwritten
  obtain ⟨read, hread⟩ := hloop.exists_mem_reads hg
  obtain ⟨hreads, hreadd⟩ := hloop.mem_reads_iff.mp hread
  obtain ⟨i, -, hi⟩ := h.read _ read hreads (List.mem_flatten.mpr ⟨e, he, hsame ▸ hreadd⟩)
  rw [hnone] at hi
  cases hi

/-- The write of a register that some solved node reads is solved. -/
theorem write_mem (hg : g.Coherent) (hlegal : g.Legal)
    (heq : g.dependencyComponents = earlier ++ later) {read write : Int}
    (hread : read ∈ g.reads (.str name)) (hdone : read ∈ earlier.flatten)
    (hwrite : write ∈ g.writes (.str name)) : write ∈ earlier.flatten := by
  obtain ⟨d, hd, hreadd⟩ := List.mem_flatten.mp hdone
  obtain ⟨before, after, rfl⟩ := List.append_of_mem hd
  have hdep := (hlegal.mem_dependencies_iff hg).mpr (.register hread hwrite)
  have hsplit : g.dependencyComponents = before ++ d :: (after ++ later) := by rw [heq]; simp
  have hclosed := (Graph.dependencies_decompose hg).closed _ _ _ hsplit read hreadd write hdep
  simp only [List.flatten_append, List.flatten_cons, List.mem_append]
  tauto

end Solved

/-- A read that is in no loop comes after the write of its register. -/
theorem write_mem_of_read (hg : g.Coherent) (hlegal : g.Legal)
    (heq : g.dependencyComponents = earlier ++ [id] :: later) (hread : id ∈ g.reads (.str name))
    {write : Int} (hwrite : write ∈ g.writes (.str name)) : write ∈ earlier.flatten := by
  have hdep := (hlegal.mem_dependencies_iff hg).mpr (.register hread hwrite)
  rcases (Graph.dependencies_decompose hg).closed _ _ _ heq id (by simp) write hdep with
    hself | hdone
  · exact absurd (List.mem_singleton.mp hself).symm (hg.ne_of_mem_reads_of_mem_writes hread hwrite)
  · exact hdone

/-- What has been solved stays solved when nodes and values are added that solve the equations. -/
theorem Solved.append {done new : List Int} (h : Solved g t done env values)
    (hknown : ∀ id, (∃ i, env'.lookup id = some i) ↔ id ∈ done ∨ id ∈ new)
    (hext : Extends env env')
    (hkept : ∀ name i, values.lookup name = some i → values'.lookup name = some i)
    (hnode : ∀ n ∈ g.nodes, n.id ∈ new → n.kind ≠ .regRead →
      ∃ i, env'.lookup n.id = some i ∧ ∀ values, transfer g t env' values n = .ok i)
    (hread : ∀ name, ∀ id ∈ g.reads (.str name), id ∈ new →
      ∃ i, env'.lookup id = some i ∧ values'.lookup name = some i)
    (hnew : ∀ name i, values.lookup name = none → values'.lookup name = some i →
      (∃ read ∈ g.reads (.str name), read ∈ new) ∧
        ∀ r ∈ g.registers, r.name = name → RegisterSolved g t env' r i) :
    Solved g t (done ++ new) env' values' := by
  refine ⟨fun id ↦ by rw [hknown, List.mem_append], ?_, ?_, ?_, ?_⟩
  · intro n hn hmem hkind
    rcases List.mem_append.mp hmem with hmem | hmem
    · obtain ⟨i, hi, htransfer⟩ := h.node n hn hmem hkind
      exact ⟨i, hext _ _ hi, fun values ↦ transfer_extends hext hkind (htransfer values)⟩
    · exact hnode n hn hmem hkind
  · intro name id hid hmem
    rcases List.mem_append.mp hmem with hmem | hmem
    · obtain ⟨i, hi, hvalue⟩ := h.read name id hid hmem
      exact ⟨i, hext _ _ hi, hkept _ _ hvalue⟩
    · exact hread name id hid hmem
  · intro name i hi
    cases hold : values.lookup name with
    | none =>
      obtain ⟨⟨read, hread, hmem⟩, -⟩ := hnew name i hold hi
      exact ⟨read, hread, List.mem_append_right _ hmem⟩
    | some j =>
      obtain ⟨read, hread, hmem⟩ := h.asked name j hold
      exact ⟨read, hread, List.mem_append_left _ hmem⟩
  · intro r hr i hi
    cases hold : values.lookup r.name with
    | none => exact (hnew r.name i hold hi).2 r hr rfl
    | some j =>
      rw [hkept _ _ hold] at hi
      cases hi
      exact (h.value r hr i hold).mono hext

private theorem exists_lookup_cons_iff {o : Int} :
    (∃ j, List.lookup o ((id, i) :: env) = some j) ↔ (∃ j, env.lookup o = some j) ∨ o = id := by
  by_cases ho : o = id
  · simp [ho]
  · simp [lookup_cons_of_ne ho, ho]

theorem Solved.node_step (hg : g.Coherent) {done : List Int} (h : Solved g t done env values)
    (hn : n ∈ g.nodes) (hkind : n.kind ≠ .regRead) (hnew : env.lookup n.id = none)
    (hi : transfer g t env values n = .ok i) :
    Solved g t (done ++ [n.id]) ((n.id, i) :: env) values := by
  have hext : Extends env ((n.id, i) :: env) := extends_cons hnew
  refine h.append ?_ hext (fun _ _ hj ↦ hj) ?_ ?_ ?_
  · intro id
    rw [exists_lookup_cons_iff, h.known, List.mem_singleton]
  · intro m hm hmem hmkind
    obtain rfl := hg.eq_of_id_eq hm hn (List.mem_singleton.mp hmem)
    exact ⟨i, List.lookup_cons_self, fun values' ↦ transfer_extends hext hmkind hi⟩
  · intro name id hid hmem
    obtain ⟨m, hm, hmkind, -, rfl⟩ := hg.mem_reads_iff.mp hid
    obtain rfl := hg.eq_of_id_eq hm hn (List.mem_singleton.mp hmem)
    exact absurd hmkind hkind
  · intro name j hnone hsome
    rw [hnone] at hsome
    cases hsome

theorem lookup_record (values : List (String × Interval)) (name : String) (i : Interval) :
    List.lookup name (record values name i) = some ((values.lookup name).getD i) := by
  rw [record]
  cases h : values.lookup name with
  | none => simp [List.lookup_append, h]
  | some j => simp [h]

theorem lookup_record_of_ne {name' : String} (h : name' ≠ name) :
    List.lookup name' (record values name i) = values.lookup name' := by
  rw [record]
  split
  case isTrue => rfl
  case isFalse =>
    rw [List.lookup_append, List.lookup_cons, beq_eq_false_iff_ne.mpr h]
    simp

/-- What a read finds: the values recorded, or else those that the register holds without a loop. -/
theorem registerValues_cases (h : registerValues g env values name = .ok i) :
    values.lookup name = some i ∨ values.lookup name = none ∧
      ∃ r, g.register? name = some r ∧ heldValues g env r = .ok i := by
  rw [registerValues] at h
  cases hvalue : values.lookup name with
  | some j =>
    rw [hvalue] at h
    cases h
    exact Or.inl rfl
  | none =>
    rw [hvalue] at h
    obtain ⟨r, hr, hheld⟩ := Outcome.bind_eq_ok.mp h
    exact Or.inr ⟨rfl, r, declared_eq_ok.mp hr, hheld⟩

theorem Solved.read_step (hg : g.Coherent) (hlegal : g.Legal)
    (h : Solved g t earlier.flatten env values)
    (heq : g.dependencyComponents = earlier ++ [id] :: later) (hid : id ∈ g.reads (.str name))
    (hi : registerValues g env values name = .ok i) :
    Solved g t (earlier.flatten ++ [id]) ((id, i) :: env) (record values name i) := by
  have hext : Extends env ((id, i) :: env) := extends_cons (h.lookup_eq_none hg heq (by simp))
  have hcases := registerValues_cases hi
  have hrecord : List.lookup name (record values name i) = some i := by
    rw [lookup_record]
    rcases hcases with hsome | ⟨hnone, -⟩
    · rw [hsome, Option.getD_some]
    · rw [hnone, Option.getD_none]
  refine h.append ?_ hext ?_ ?_ ?_ ?_
  · intro id
    rw [exists_lookup_cons_iff, h.known, List.mem_singleton]
  · intro name' j hj
    by_cases hname : name' = name
    · subst hname
      rw [lookup_record, hj, Option.getD_some]
    · rw [lookup_record_of_ne hname, hj]
  · intro n hn hmem hkind
    obtain ⟨m, hm, hmkind, -, rfl⟩ := hg.mem_reads_iff.mp hid
    obtain rfl := hg.eq_of_id_eq hn hm (List.mem_singleton.mp hmem)
    exact absurd hmkind hkind
  · intro name' id' hid' hmem
    obtain rfl := List.mem_singleton.mp hmem
    obtain rfl := hg.eq_of_mem_reads hid' hid
    exact ⟨i, List.lookup_cons_self, hrecord⟩
  · intro name' j hnone hsome
    by_cases hname : name' = name
    · subst hname
      rw [hrecord] at hsome
      cases hsome
      refine ⟨⟨id, hid, List.mem_singleton_self id⟩, fun r hr hrname ↦ ?_⟩
      rcases hcases with hsome | ⟨-, r', hr', hheld⟩
      · rw [hnone] at hsome
        cases hsome
      · obtain rfl : r = r' := by
          rw [← hrname, hg.register?_name hr] at hr'
          exact Option.some_inj.mp hr'
        have hwritten : ∀ write ∈ g.writes (.str name'), write ∈ earlier.flatten := fun _ ↦
          write_mem_of_read hg hlegal heq hid
        exact .held (hrname ▸ h.register_ne hg heq hnone hwritten) (heldValues_extends hext hheld)
    · rw [lookup_record_of_ne hname, hnone] at hsome
      cases hsome

theorem solveNode_eq_ok (h : solveNode g t s id = .ok s') :
    ∃ i values, s' = ⟨(id, i) :: s.env, values, s.histories⟩ := by
  obtain ⟨n, -, h⟩ := Outcome.bind_eq_ok.mp h
  obtain ⟨i, -, h⟩ := Outcome.bind_eq_ok.mp h
  cases h
  exact ⟨i, _, rfl⟩

theorem solveLoop_eq_ok {loop : FeedbackLoop} (h : solveLoop g t s loop = .ok s') :
    ∃ r ends env seeds, g.register? loop.register = some r ∧ thresholds r = .ok ends ∧
      settle g t s loop ends t.maxIterations.toNat 1 (Interval.point r.init)
        [Interval.point r.init] = .ok (env, seeds) ∧
      s' = ⟨env, s.values ++ [(loop.register, seeds.getLast?.getD (Interval.point r.init))],
        s.histories ++ [(loop.register, seeds)]⟩ := by
  obtain ⟨r, hr, h⟩ := Outcome.bind_eq_ok.mp h
  obtain ⟨ends, hends, h⟩ := Outcome.bind_eq_ok.mp h
  obtain ⟨⟨env, seeds⟩, hsettle, h⟩ := Outcome.bind_eq_ok.mp h
  cases h
  exact ⟨r, ends, env, seeds, declared_eq_ok.mp (Outcome.mapError_eq_ok.mp hr),
    Outcome.mapError_eq_ok.mp hends, hsettle, rfl⟩

/-- A loop is solved by a run of the iteration. -/
theorem solveLoop_spec {loop : FeedbackLoop} (hloop : Scheduled g loop)
    (h : solveLoop g t s loop = .ok s') :
    ∃ r ends final, g.register? loop.register = some r ∧ thresholds r = .ok ends ∧
      Settles g t s.env loop ends 1 (Interval.point r.init) final s'.env ∧
      (∀ id ∉ loop.nodes, s'.env.lookup id = s.env.lookup id) ∧
      s'.values = s.values ++ [(loop.register, final)] := by
  obtain ⟨r, ends, env, seeds, hr, hends, hsettle, rfl⟩ := solveLoop_eq_ok h
  obtain ⟨rest, final, written, rfl, htrace, -, hlast, heval, hwritten, hleq, hframe⟩ :=
    settle_eq_ok hloop hsettle
  refine ⟨r, ends, final, hr, hends, htrace.settles hlast heval hwritten hleq, hframe, ?_⟩
  rw [hlast, Option.getD_some]

theorem Solved.loop_step (hg : g.Coherent) (hlegal : g.Legal)
    (h : Solved g t earlier.flatten s.env s.values)
    (heq : g.dependencyComponents = earlier ++ c :: later) {loop : FeedbackLoop}
    (hloop : g.IsLoopOf c loop) (hs' : solveLoop g t s loop = .ok s') :
    Solved g t (earlier.flatten ++ c) s'.env s'.values := by
  have hc : c ∈ g.dependencyComponents := by simp [heq]
  obtain ⟨r, ends, final, hr, hends, hrun, hframe, hvalues⟩ :=
    solveLoop_spec (scheduled_of_isLoopOf hg hlegal hc hloop) hs'
  obtain ⟨heval, -⟩ := hrun.evaluates
  have hnodes : ∀ {id : Int}, id ∈ loop.nodes ↔ id ∈ c := hloop.mem_nodes_iff hg hlegal hc
  have hext : Extends s.env s'.env :=
    h.extends_of_frame hg heq fun id hid ↦ hframe id (mt hnodes.mp hid)
  have hnone : s.values.lookup loop.register = none := by
    rw [Option.eq_none_iff_forall_ne_some]
    intro i hi
    -- a read that asked for the values would depend on the write, which is not solved yet
    obtain ⟨read, hread, hdone⟩ := h.asked _ i hi
    obtain ⟨hmem, hwrite⟩ := hloop.write_mem hg
    exact (Graph.dependencies_decompose hg).notMem_flatten_of_mem heq hmem
      (Solved.write_mem hg hlegal heq hread hdone hwrite)
  have hfinal : s'.values.lookup loop.register = some final := by
    rw [hvalues, List.lookup_append, hnone, List.lookup_cons_self]
    rfl
  refine h.append ?_ hext ?_ ?_ ?_ ?_
  · intro id
    by_cases hid : id ∈ loop.nodes
    · exact iff_of_true (heval.exists_lookup hid) (Or.inr (hnodes.mp hid))
    · rw [hframe id hid, h.known, or_iff_left (mt hnodes.mpr hid)]
  · intro name i hi
    rw [hvalues, List.lookup_append, hi]
    rfl
  · intro n hn hmem hkind
    have hnotRead : n.id ∉ loop.reads := by
      intro hread
      obtain ⟨m, hm, hmkind, -, hmid⟩ := hg.mem_reads_iff.mp (hloop.mem_reads_iff.mp hread).1
      exact hkind (hg.eq_of_id_eq hm hn hmid ▸ hmkind)
    obtain ⟨m, i, hm, hi, htransfer⟩ := heval.nodes n.id (hnodes.mpr hmem) hnotRead
    rw [hg.node?_id hn] at hm
    cases hm
    exact ⟨i, hi, htransfer⟩
  · intro name id hid hmem
    have hread := hloop.mem_reads_of_mem hg hlegal hc hmem hid
    obtain rfl := hg.eq_of_mem_reads hid (hloop.mem_reads_iff.mp hread).1
    exact ⟨final, heval.reads id hread, hfinal⟩
  · intro name i hold hi
    by_cases hname : name = loop.register
    · subst hname
      rw [hfinal] at hi
      cases hi
      obtain ⟨read, hread⟩ := hloop.exists_mem_reads hg
      refine ⟨⟨read, hloop.mem_reads_iff.mp hread⟩, fun r' hr' hname' ↦ ?_⟩
      rw [← hname', hg.register?_name hr'] at hr
      cases hr
      exact .loop hc hloop hname'.symm hends (hrun.mono hext) (Extends.refl _)
    · rw [hvalues, List.lookup_append, hold, Option.none_or, List.lookup_cons,
        beq_eq_false_iff_ne.mpr hname] at hi
      cases hi

theorem transfer_read (hg : g.Coherent) (hlegal : g.Legal) (hn : n ∈ g.nodes)
    (hkind : n.kind = .regRead) (hname : n.registerName? = some name) :
    transfer g t env values n = registerValues g env values name := by
  have hread : n.id ∈ g.reads (.str name) :=
    hg.mem_reads_iff.mpr ⟨n, hn, hkind, Node.registerName?_eq_some.mp hname, rfl⟩
  have hoperands : n.operands = [] := by
    rw [← hg.operands_id hn, hlegal.operands_read hg hread]
  simp only [transfer, hoperands, hkind, hname]
  rfl

theorem Solved.solveNode_step (hg : g.Coherent) (hlegal : g.Legal)
    (h : Solved g t earlier.flatten s.env s.values)
    (heq : g.dependencyComponents = earlier ++ [id] :: later)
    (hs' : solveNode g t s id = .ok s') :
    Solved g t (earlier.flatten ++ [id]) s'.env s'.values := by
  obtain ⟨n, hn, hs'⟩ := Outcome.bind_eq_ok.mp hs'
  obtain ⟨i, hi, hs'⟩ := Outcome.bind_eq_ok.mp hs'
  obtain ⟨hmem, rfl⟩ := Graph.mem_nodes_of_node?_eq_some (nodeAt_eq_ok.mp hn)
  cases hs'
  by_cases hkind : n.kind = .regRead
  · obtain ⟨r, -, hregister, hread⟩ := hlegal.exists_register_of_read hg hmem hkind
    have hname := Node.registerName?_eq_some.mpr hregister
    rw [transfer_read hg hlegal hmem hkind hname] at hi
    simp only [hkind, hname]
    exact h.read_step hg hlegal heq hread hi
  · have hstep := h.node_step hg hmem hkind (h.lookup_eq_none hg heq (by simp)) hi
    dsimp only
    split
    case h_1 hread _ => exact absurd hread hkind
    case h_2 => exact hstep

theorem Solved.component_step (hg : g.Coherent) (hlegal : g.Legal) {layout : Layout}
    (harranges : g.Arranges layout) (h : Solved g t earlier.flatten s.env s.values)
    (heq : g.dependencyComponents = earlier ++ c :: later)
    (hs' : solveComponent g t layout.loops s c = .ok s') :
    Solved g t (earlier ++ [c]).flatten s'.env s'.values := by
  have hdecompose := Graph.dependencies_decompose hg
  have hc : c ∈ g.dependencyComponents := by simp [heq]
  rw [List.flatten_append, List.flatten_singleton]
  match c, hs' with
  | [], _ => exact absurd rfl (hdecompose.ne_nil [] hc)
  | [id], hs' => exact h.solveNode_step hg hlegal heq (Outcome.mapError_eq_ok.mp hs')
  | id :: id' :: rest, hs' =>
    rw [solveComponent, solveComponentBy] at hs'
    · cases hfind : layout.loops.find? (·.nodes.contains id) with
      | none =>
        rw [hfind] at hs'
        cases hs'
      | some loop =>
        rw [hfind] at hs'
        obtain ⟨d, hd, hloop⟩ := harranges.isLoopOf loop (List.mem_of_find?_eq_some hfind)
        have hcontains : id ∈ loop.nodes := by simpa using List.find?_some hfind
        have hid := (hloop.mem_nodes_iff hg hlegal hd).mp hcontains
        obtain rfl := hdecompose.eq_of_mem hc hd List.mem_cons_self hid
        exact h.loop_step hg hlegal heq hloop hs'
    · simp

end Step

/-! ## The result -/

/-- The result of an inference solves the dataflow equations. -/
structure Solution (g : Graph) (t : Tuning) (result : Inference) : Prop where
  /-- A node follows from its operands. -/
  node : ∀ n ∈ g.nodes, n.kind ≠ .regRead → ∃ i, result.nodes.lookup n.id = some i ∧
    ∀ values, transfer g t result.nodes values n = .ok i
  /-- A read has the values of its register. -/
  read : ∀ name, ∀ id ∈ g.reads (.str name),
    ∃ i, result.nodes.lookup id = some i ∧ result.registers.lookup name = some i
  /-- The values of a register are right. -/
  register : ∀ r ∈ g.registers,
    ∃ i, result.registers.lookup r.name = some i ∧ RegisterSolved g t result.nodes r i

theorem Solution.exists_lookup {result : Inference} (h : Solution g t result) (hg : g.Coherent)
    (hlegal : g.Legal) (hid : id ∈ g.ids) : ∃ i, result.nodes.lookup id = some i := by
  obtain ⟨n, hn, rfl⟩ := List.mem_map.mp hid
  by_cases hkind : n.kind = .regRead
  · obtain ⟨r, -, -, hread⟩ := hlegal.exists_register_of_read hg hn hkind
    obtain ⟨i, hi, -⟩ := h.read r.name n.id hread
    exact ⟨i, hi⟩
  · obtain ⟨i, hi, -⟩ := h.node n hn hkind
    exact ⟨i, hi⟩

/-- What is established when the values of some registers have been completed. -/
structure Completed (g : Graph) (t : Tuning) (s : State) (done : List Register)
    (values : List (String × Interval)) : Prop where
  /-- The values that were asked for are kept. -/
  kept : ∀ name i, s.values.lookup name = some i → values.lookup name = some i
  /-- All values are right. -/
  right : ∀ r ∈ g.registers, ∀ i, values.lookup r.name = some i → RegisterSolved g t s.env r i
  /-- These registers have values. -/
  found : ∀ r ∈ done, ∃ i, values.lookup r.name = some i

theorem Completed.step (hg : g.Coherent) {s : State} {done : List Register}
    (h : Solved g t g.dependencyComponents.flatten s.env s.values)
    (hdone : Completed g t s done values) (hr : r ∈ g.registers)
    (hnone : values.lookup r.name = none) (hi : heldValues g s.env r = .ok i) :
    Completed g t s (done ++ [r]) (values ++ [(r.name, i)]) := by
  have hnone' : s.values.lookup r.name = none := by
    rw [Option.eq_none_iff_forall_ne_some]
    intro j hj
    rw [hdone.kept _ _ hj] at hnone
    cases hnone
  have hkept : ∀ name j, values.lookup name = some j →
      List.lookup name (values ++ [(r.name, i)]) = some j := by
    intro name j hj
    rw [List.lookup_append, hj]
    rfl
  have hadded : List.lookup r.name (values ++ [(r.name, i)]) = some i := by
    rw [List.lookup_append, hnone, List.lookup_cons_self]
    rfl
  refine ⟨fun name j hj ↦ hkept name j (hdone.kept name j hj), ?_, ?_⟩
  · intro r' hr' j hj
    by_cases hname : r'.name = r.name
    · obtain rfl : r' = r := by
        have hsame := hg.register?_name hr'
        rw [hname, hg.register?_name hr] at hsame
        exact (Option.some_inj.mp hsame).symm
      rw [hadded] at hj
      cases hj
      -- all components are solved, so a loop of the register would have recorded its values
      refine .held (h.register_ne hg (List.append_nil _).symm hnone' fun write hwrite ↦ ?_) hi
      exact (Graph.mem_flatten_dependencyComponents_iff hg).mpr (hg.mem_ids_of_mem_writes hwrite)
    · rw [List.lookup_append, List.lookup_cons, beq_eq_false_iff_ne.mpr hname] at hj
      exact hdone.right r' hr' j (by simpa using hj)
  · rw [List.forall_mem_append, List.forall_mem_singleton]
    refine ⟨fun r' hr' ↦ ?_, i, hadded⟩
    obtain ⟨j, hj⟩ := hdone.found r' hr'
    exact ⟨j, hkept _ _ hj⟩

theorem completed_of_completeRegisters (hg : g.Coherent) {s : State}
    (h : Solved g t g.dependencyComponents.flatten s.env s.values)
    (hvalues : completeRegisters g s = .ok values) : Completed g t s g.registers values := by
  refine Outcome.foldlM_induction (Completed g t s) ?_ ⟨fun _ _ hi ↦ hi, h.value, by simp⟩ hvalues
  intro done r rest heq values values' hdone hstep
  have hr : r ∈ g.registers := by simp [heq]
  split at hstep
  case isTrue hsome =>
    cases hstep
    refine ⟨hdone.kept, hdone.right, ?_⟩
    rw [List.forall_mem_append, List.forall_mem_singleton]
    exact ⟨hdone.found, Option.isSome_iff_exists.mp hsome⟩
  case isFalse hnone =>
    obtain ⟨i, hi, hstep⟩ := Outcome.bind_eq_ok.mp hstep
    cases hstep
    exact hdone.step hg h hr (Option.not_isSome_iff_eq_none.mp hnone) hi

theorem extends_of_mapM {ids : List Int} {nodes : List (Int × Interval)}
    (h : ids.mapM (fun id ↦ do return (id, ← lookup env id)) = .ok nodes)
    (hknown : ∀ id i, env.lookup id = some i → id ∈ ids) : Extends env nodes := by
  have hlookup : ∀ id ∈ ids, nodes.lookup id = env.lookup id := by
    have hall := Outcome.mapM_eq_ok.mp h
    clear h hknown
    induction hall with
    | nil => simp
    | @cons o entry ids nodes hentry _ ih =>
      obtain ⟨i, hi, hentry⟩ := Outcome.bind_eq_ok.mp hentry
      cases hentry
      intro id hid
      by_cases heq : id = o
      · rw [heq, List.lookup_cons_self, lookup_eq_ok.mp hi]
      · rw [lookup_cons_of_ne heq]
        exact ih id ((List.mem_cons.mp hid).resolve_left heq)
  intro id i hi
  rw [hlookup id (hknown id i hi), hi]

theorem solved_of_foldlM (hg : g.Coherent) (hlegal : g.Legal) {layout : Layout}
    (harranges : g.Arranges layout) {earlier later : List (List Int)} {s : State}
    (heq : g.dependencyComponents = earlier ++ later)
    (hs : earlier.foldlM (solveComponent g t layout.loops) ⟨[], [], []⟩ = .ok s) :
    Solved g t earlier.flatten s.env s.values := by
  refine Outcome.foldlM_induction (fun done s ↦ Solved g t done.flatten s.env s.values) ?_
    solved_nil hs
  intro done c rest hsplit s s' hdone hstep
  have heq' : g.dependencyComponents = done ++ c :: (rest ++ later) := by rw [heq, hsplit]; simp
  exact hdone.component_step hg hlegal harranges heq' hstep

/-- Inference succeeds for legal graphs only. Its result extends what the components lead to. -/
theorem infer_eq_ok (hg : g.Coherent) {result : Inference} (h : g.infer t = .ok result) :
    g.Legal ∧ ∃ layout s, g.layout = .ok layout ∧ g.Arranges layout ∧
      g.dependencyComponents.foldlM (solveComponent g t layout.loops) ⟨[], [], []⟩ = .ok s ∧
      Solved g t g.dependencyComponents.flatten s.env s.values ∧
      Completed g t s g.registers result.registers ∧ Extends s.env result.nodes ∧
      result.histories = s.histories := by
  obtain ⟨layout, hlayout, h⟩ := Outcome.bind_eq_ok.mp h
  obtain ⟨s, hs, h⟩ := Outcome.bind_eq_ok.mp h
  obtain ⟨values, hvalues, h⟩ := Outcome.bind_eq_ok.mp h
  obtain ⟨nodes, hnodes, h⟩ := Outcome.bind_eq_ok.mp h
  cases h
  rw [Outcome.mapError_eq_ok] at hlayout hvalues hnodes
  obtain ⟨hlegal, harranges⟩ := Graph.legal_of_computeLayout hg (hg.layout_eq ▸ hlayout)
  rw [harranges.components] at hs
  have hsolved := solved_of_foldlM hg hlegal harranges (List.append_nil _).symm hs
  have hext : Extends s.env nodes := extends_of_mapM hnodes fun id i hi ↦
    (Graph.mem_flatten_dependencyComponents_iff hg).mp ((hsolved.known id).mp ⟨i, hi⟩)
  exact ⟨hlegal, layout, s, hlayout, harranges, hs, hsolved,
    completed_of_completeRegisters hg hsolved hvalues, hext, rfl⟩

theorem solution_of_infer (hg : g.Coherent) {result : Inference} (h : g.infer t = .ok result) :
    g.Legal ∧ Solution g t result := by
  obtain ⟨hlegal, layout, s, -, -, -, hsolved, hcompleted, hext, -⟩ := infer_eq_ok hg h
  refine ⟨hlegal, ?_, ?_, ?_⟩
  · intro n hn hkind
    obtain ⟨i, hi, htransfer⟩ := hsolved.node n hn
      ((Graph.mem_flatten_dependencyComponents_iff hg).mpr (Graph.mem_ids_of_mem_nodes hn)) hkind
    exact ⟨i, hext _ _ hi, fun values ↦ transfer_extends hext hkind (htransfer values)⟩
  · intro name id hid
    obtain ⟨i, hi, hvalue⟩ := hsolved.read name id hid
      ((Graph.mem_flatten_dependencyComponents_iff hg).mpr (hg.mem_ids_of_mem_reads hid))
    exact ⟨i, hext _ _ hi, hcompleted.kept _ _ hvalue⟩
  · intro r hr
    obtain ⟨i, hi⟩ := hcompleted.found r hr
    exact ⟨i, hi, (hcompleted.right r hr i hi).mono hext⟩

/-- The values of a register contain the initial one, and what is written. Without a loop they are
no more than that. -/
theorem RegisterSolved.cover (hg : g.Coherent) (hlegal : g.Legal) (h : RegisterSolved g t env r i) :
    r.init ∈ i ∧ (g.writes (.str r.name) = [] → i = Interval.point r.init) ∧
      ∀ write ∈ g.writes (.str r.name), ∃ j, env.lookup write = some j ∧ j.leq i = true ∧
        ((∀ c ∈ g.dependencyComponents, ∀ loop, g.IsLoopOf c loop → loop.register ≠ r.name) →
          i = (Interval.point r.init).join j) := by
  have hinit : r.init ∈ Interval.point r.init := Interval.mem_point_iff.mpr rfl
  cases h with
  | @loop c loop ends final table hc hloop hname hends hrun htable =>
    obtain ⟨-, hwrite⟩ := hloop.write_mem hg
    rw [hname] at hwrite
    refine ⟨Interval.mem_of_leq hrun.seed_leq hinit, fun hnil ↦ ?_, fun write hmem ↦ ?_⟩
    · rw [hnil] at hwrite
      cases hwrite
    · rw [hlegal.writes_eq hg hwrite, List.mem_singleton] at hmem
      obtain ⟨-, written, hwritten, hleq⟩ := hrun.evaluates
      exact ⟨written, hmem ▸ htable _ _ hwritten, hleq,
        fun hnone ↦ absurd hname (hnone c hc loop hloop)⟩
  | held _ hheld =>
    rw [heldValues] at hheld
    cases hwrite : g.write? (.str r.name) with
    | none =>
      rw [hwrite] at hheld
      cases hheld
      have hnil := List.head?_eq_none_iff.mp hwrite
      exact ⟨hinit, fun _ ↦ rfl, by simp [hnil]⟩
    | some write =>
      simp only [hwrite] at hheld
      obtain ⟨written, hwritten, hjoin⟩ := Outcome.bind_eq_ok.mp hheld
      cases hjoin
      have hmem := Graph.mem_writes_of_write?_eq_some hwrite
      refine ⟨Interval.mem_of_leq (Interval.leq_join_left _ _) hinit, fun hnil ↦ ?_, ?_⟩
      · rw [hnil] at hmem
        cases hmem
      · intro write' hmem'
        rw [hlegal.writes_eq hg hmem, List.mem_singleton] at hmem'
        exact ⟨written, hmem' ▸ lookup_eq_ok.mp hwritten, Interval.leq_join_right _ _, fun _ ↦ rfl⟩

theorem mem_loops_of_isLoopOf (hg : g.Coherent) {layout : Layout} (harranges : g.Arranges layout)
    {c : List Int} (hc : c ∈ g.dependencyComponents) {loop : FeedbackLoop}
    (hloop : g.IsLoopOf c loop) : loop ∈ layout.loops := by
  obtain ⟨loop', hmem, hloop'⟩ := harranges.exists_loop c hc (hloop.length_ne_one hg)
  rwa [hloop.unique hloop']

private theorem loop_ne_of_layout (hg : g.Coherent) {layout : Layout}
    (harranges : g.Arranges layout) (hnone : ∀ loop ∈ layout.loops, loop.register ≠ name) :
    ∀ c ∈ g.dependencyComponents, ∀ loop, g.IsLoopOf c loop → loop.register ≠ name :=
  fun _ hc loop hloop ↦ hnone loop (mem_loops_of_isLoopOf hg harranges hc hloop)

/-- **The result of inference solves the dataflow equations.** A node that reads no register has
what its kind makes of its operands, and a read has the values of its register. The values of a
register contain the initial one and what is written, and without feedback they are the hull of
these. -/
theorem infer_solves_equations {result : Inference} (h : g.Built)
    (hinfer : g.infer t = .ok result) :
    (∀ n ∈ g.nodes, n.kind ≠ .regRead → ∃ i, result.nodes.lookup n.id = some i ∧
      transfer g t result.nodes result.registers n = .ok i) ∧
    (∀ n ∈ g.nodes, n.kind = .regRead → ∃ r ∈ g.registers, n.register = some (.str r.name) ∧
      ∃ i, result.nodes.lookup n.id = some i ∧ result.registers.lookup r.name = some i) ∧
    ∀ r ∈ g.registers, ∃ i, result.registers.lookup r.name = some i ∧ r.init ∈ i ∧
      (g.writes (.str r.name) = [] → i = Interval.point r.init) ∧
      ∀ write ∈ g.writes (.str r.name), ∃ j, result.nodes.lookup write = some j ∧
        j.leq i = true ∧
        ((∃ layout, g.layout = .ok layout ∧ ∀ loop ∈ layout.loops, loop.register ≠ r.name) →
          i = (Interval.point r.init).join j) := by
  have hg := h.coherent
  obtain ⟨hlegal, hsolution⟩ := solution_of_infer hg hinfer
  refine ⟨?_, ?_, ?_⟩
  · intro n hn hkind
    obtain ⟨i, hi, htransfer⟩ := hsolution.node n hn hkind
    exact ⟨i, hi, htransfer _⟩
  · intro n hn hkind
    obtain ⟨r, hr, hregister, hread⟩ := hlegal.exists_register_of_read hg hn hkind
    exact ⟨r, hr, hregister, hsolution.read r.name n.id hread⟩
  · intro r hr
    obtain ⟨i, hi, hsolved⟩ := hsolution.register r hr
    obtain ⟨hinit, hunwritten, hwritten⟩ := hsolved.cover hg hlegal
    refine ⟨i, hi, hinit, hunwritten, fun write hwrite ↦ ?_⟩
    obtain ⟨j, hj, hleq, hequal⟩ := hwritten write hwrite
    refine ⟨j, hj, hleq, ?_⟩
    rintro ⟨layout, hlayout, hnone⟩
    rw [hg.layout_eq] at hlayout
    exact hequal (loop_ne_of_layout hg (Graph.legal_of_computeLayout hg hlayout).2 hnone)

theorem exists_infer_counter : ∃ result, Graph.counter.infer .default = .ok result :=
  Outcome.exists_of_isOk (by decide +kernel)

theorem infer_counter_solves : ∃ result, Graph.counter.infer .default = .ok result ∧
    (∃ i, result.nodes.lookup 2 = some i ∧ transfer Graph.counter .default result.nodes
      result.registers ⟨.binary .add 0 1 none, 2⟩ = .ok i) ∧
    ∃ i, result.registers.lookup "count" = some i ∧ (0 : Int) ∈ i := by
  obtain ⟨result, hresult⟩ := exists_infer_counter
  obtain ⟨hnodes, -, hregisters⟩ := infer_solves_equations Graph.counter_built hresult
  obtain ⟨i, hi, hinit, -⟩ := hregisters ⟨"count", 0, some 4, false⟩ (by simp [Graph.counter])
  exact ⟨result, hresult, hnodes ⟨.binary .add 0 1 none, 2⟩ (by simp [Graph.counter]) (by decide),
    i, hi, hinit⟩

end Datapath.Inference
