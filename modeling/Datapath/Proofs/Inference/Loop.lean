import Datapath.Inference
import Datapath.Proofs.Graph.Validation

/-!
# Evaluating a feedback loop

One evaluation of a loop takes its nodes in the order of operations, so the interval that a node
gets is never computed from one that is replaced later. What comes out solves the equations of the
loop for the given seed.

A run of the iteration is a chain of such evaluations. `Traces` lists its seeds as far as they go,
and `Settles` leads from the first seed to the one at which nothing new is written. The intervals of
the nodes outside the loop are fixed during the run. They enter through a table `base` that may know
more nodes than the run ever looked at, so a run described over one table is a run over every larger
one.
-/

namespace Datapath

/-- Two nodes compute the same from the same operands. -/
structure Node.Agrees (n m : Node) : Prop where
  kind : n.kind = m.kind
  operands : n.operands = m.operands
  value : n.value = m.value
  register : n.register = m.register
  bounds : n.bounds = m.bounds

namespace Inference

variable {g g' : Graph} {t : Tuning} {n m : Node} {env env' : Env} {id : Int} {i : Interval}
  {values values' : List (String × Interval)}

theorem lookup_cons_of_ne {o : Int} (h : o ≠ id) :
    List.lookup o ((id, i) :: env) = env.lookup o := by
  rw [List.lookup_cons, beq_eq_false_iff_ne.mpr h]

theorem lookup_eq_ok : lookup env id = .ok i ↔ env.lookup id = some i := by
  rw [lookup]
  cases env.lookup id <;> simp

theorem nodeAt_eq_ok : nodeAt g id = .ok n ↔ g.node? id = some n := by
  rw [nodeAt]
  cases g.node? id <;> simp

/-- The interval of a node that is no read follows from the intervals of its operands. Beside them,
only the declaration of a register that is written counts. -/
theorem transfer_congr (h : n.Agrees m) (hkind : n.kind ≠ .regRead)
    (hregister : n.kind = .regWrite →
      ∀ name, n.registerName? = some name → g.register? name = g'.register? name)
    (henv : ∀ o ∈ n.operands, env.lookup o = env'.lookup o) :
    transfer g t env values n = transfer g' t env' values' m := by
  rw [transfer, transfer, ← h.operands,
    Outcome.mapM_congr fun o ho ↦ by rw [lookup, henv o ho, ← lookup]]
  refine bind_congr fun operands ↦ ?_
  have hname : n.registerName? = m.registerName? := by
    rw [Node.registerName?, Node.registerName?, h.register]
  rw [← h.kind, ← h.value, ← h.bounds, ← hname]
  cases hcase : n.kind with
  | regRead => exact absurd hcase hkind
  | regWrite =>
    cases operands with
    | nil => rfl
    | cons a rest =>
      cases hsome : n.registerName? with
      | none => rfl
      | some name => simp only [written, declared, hregister hcase name hsome]
  | _ => rcases operands with _ | ⟨a, _ | ⟨b, rest⟩⟩ <;> rfl

/-! ## One evaluation -/

/-- One table of intervals knows everything that another does. -/
def Extends (env env' : Env) : Prop := ∀ id i, env.lookup id = some i → env'.lookup id = some i

/-- A table solves the equations of a loop with its reads at a seed. -/
structure Evaluates (g : Graph) (t : Tuning) (base : Env) (loop : FeedbackLoop) (seed : Interval)
    (env : Env) : Prop where
  /-- Outside the loop it says what the base does. -/
  outside : ∀ id ∉ loop.nodes, ∀ i, env.lookup id = some i → base.lookup id = some i
  /-- The reads are at the seed. -/
  reads : ∀ id ∈ loop.reads, env.lookup id = some seed
  /-- The other nodes follow from their operands. -/
  nodes : ∀ id ∈ loop.nodes, id ∉ loop.reads →
    ∃ n i, g.node? id = some n ∧ env.lookup id = some i ∧
      ∀ values, transfer g t env values n = .ok i

theorem Evaluates.mono {base base' : Env} {loop : FeedbackLoop} {seed : Interval}
    (h : Evaluates g t base loop seed env) (hbase : Extends base base') :
    Evaluates g t base' loop seed env :=
  ⟨fun id hid i hi ↦ hbase id i (h.outside id hid i hi), h.reads, h.nodes⟩

theorem Evaluates.exists_lookup {base : Env} {loop : FeedbackLoop} {seed : Interval}
    (h : Evaluates g t base loop seed env) (hid : id ∈ loop.nodes) :
    ∃ i, env.lookup id = some i := by
  by_cases hread : id ∈ loop.reads
  · exact ⟨seed, h.reads id hread⟩
  · obtain ⟨n, i, -, hi, -⟩ := h.nodes id hid hread
    exact ⟨i, hi⟩

/-- The nodes of a loop stand in the order of operations, and its reads are known. -/
structure Scheduled (g : Graph) (loop : FeedbackLoop) : Prop where
  /-- No node stands twice. -/
  nodup : loop.nodes.Nodup
  /-- No node comes before one of its operands. -/
  pairwise : loop.nodes.Pairwise fun a b ↦ b ∉ g.operands a
  irrefl : ∀ id, id ∉ g.operands id
  /-- The reads stand in the loop. -/
  reads_subset : ∀ id ∈ loop.reads, id ∈ loop.nodes
  /-- There are no other reads in the loop. -/
  reads_complete : ∀ id ∈ loop.nodes, ∀ n, g.node? id = some n → n.kind = .regRead → id ∈ loop.reads

theorem scheduled_of_isLoopOf (hg : g.Coherent) (hlegal : g.Legal) {c : List Int}
    (hc : c ∈ g.dependencyComponents) {loop : FeedbackLoop} (h : g.IsLoopOf c loop) :
    Scheduled g loop where
  nodup := by
    rw [h.nodes]
    exact (Graph.nodup_readyOrder hg).filter _
  pairwise := by
    rw [h.nodes]
    exact (Graph.pairwise_readyOrder hg).filter _
  irrefl := fun id hid ↦ hlegal.acyclic id (Relation.TransGen.single hid)
  reads_subset := fun id hid ↦ (h.mem_nodes_iff hg hlegal hc).mpr (h.mem_reads_iff.mp hid).2
  reads_complete := by
    intro id hid n hn hkind
    obtain ⟨hmem, rfl⟩ := Graph.mem_nodes_of_node?_eq_some hn
    obtain ⟨r, -, -, hread⟩ := hlegal.exists_register_of_read hg hmem hkind
    exact h.mem_reads_of_mem hg hlegal hc ((h.mem_nodes_iff hg hlegal hc).mp hid) hread

theorem transfer_cons (hkind : n.kind ≠ .regRead) (hid : id ∉ n.operands) :
    transfer g t ((id, i) :: env) values' n = transfer g t env values n := by
  refine transfer_congr ⟨rfl, rfl, rfl, rfl, rfl⟩ hkind (fun _ _ _ ↦ rfl) fun o ho ↦ ?_
  exact lookup_cons_of_ne fun heq ↦ hid (heq ▸ ho)

section Pass

variable {s : State} {loop : FeedbackLoop} {seed : Interval}

/-- What one evaluation has established after some of the nodes. -/
private structure Passed (g : Graph) (t : Tuning) (base : Env) (loop : FeedbackLoop)
    (seed : Interval) (done : List Int) (env : Env) : Prop where
  /-- Nothing else has changed. -/
  frame : ∀ id ∉ done, env.lookup id = base.lookup id
  /-- The reads are at the seed. -/
  reads : ∀ id ∈ done, id ∈ loop.reads → env.lookup id = some seed
  /-- The other nodes follow from their operands. -/
  nodes : ∀ id ∈ done, id ∉ loop.reads →
    ∃ n i, g.node? id = some n ∧ env.lookup id = some i ∧
      ∀ values, transfer g t env values n = .ok i

/-- One node more. Neither the nodes before it nor the node itself have it as an operand. -/
private theorem Passed.step {base : Env} {done : List Int}
    (h : Passed g t base loop seed done env) (hid : id ∉ done)
    (hdone : ∀ x ∈ done, id ∉ g.operands x)
    (hkind : ∀ x ∈ done, ∀ n, g.node? x = some n → n.kind = .regRead → x ∈ loop.reads)
    (hread : id ∈ loop.reads → i = seed)
    (hnode : id ∉ loop.reads → ∃ n, g.node? id = some n ∧
      ∀ values, transfer g t ((id, i) :: env) values n = .ok i) :
    Passed g t base loop seed (done ++ [id]) ((id, i) :: env) := by
  have hold : ∀ x ∈ done, List.lookup x ((id, i) :: env) = env.lookup x := fun x hx ↦
    lookup_cons_of_ne fun heq ↦ hid (heq ▸ hx)
  refine ⟨?_, ?_, ?_⟩
  · intro x hx
    rw [List.mem_append, List.mem_singleton, not_or] at hx
    rw [lookup_cons_of_ne hx.2, h.frame x hx.1]
  · intro x hx hxread
    rcases List.mem_append.mp hx with hx | hx
    · rw [hold x hx, h.reads x hx hxread]
    · rw [List.mem_singleton.mp hx] at hxread ⊢
      rw [List.lookup_cons_self, hread hxread]
  · intro x hx hxread
    rcases List.mem_append.mp hx with hx | hx
    · obtain ⟨n, j, hn, hj, htransfer⟩ := h.nodes x hx hxread
      refine ⟨n, j, hn, by rw [hold x hx, hj], fun values ↦ ?_⟩
      have hoperand : id ∉ n.operands := by
        have hdone := hdone x hx
        rwa [Graph.operands, hn, Option.map_some, Option.getD_some] at hdone
      have hnotRead : n.kind ≠ .regRead := fun hk ↦ hxread (hkind x hx n hn hk)
      exact (transfer_cons hnotRead hoperand).trans (htransfer values)
    · rw [List.mem_singleton.mp hx] at hxread ⊢
      obtain ⟨n, hn, htransfer⟩ := hnode hxread
      exact ⟨n, i, hn, List.lookup_cons_self, htransfer⟩

/-- One evaluation solves the equations of the loop and changes nothing else. -/
theorem pass_spec (hloop : Scheduled g loop) (h : pass g t s loop seed = .ok env) :
    Evaluates g t s.env loop seed env ∧ ∀ id ∉ loop.nodes, env.lookup id = s.env.lookup id := by
  have hpassed : Passed g t s.env loop seed loop.nodes env := by
    refine Outcome.foldlM_induction (Passed g t s.env loop seed) ?_
      ⟨fun _ _ ↦ rfl, by simp, by simp⟩ h
    intro done id rest heq env env' hdone hstep
    have hsub : ∀ x ∈ done ++ [id], x ∈ loop.nodes := by
      intro x hx
      rw [heq, List.append_cons]
      exact List.mem_append_left _ hx
    have hid : id ∉ done := by
      have hnodup := hloop.nodup
      rw [heq, List.nodup_append] at hnodup
      exact fun hmem ↦ hnodup.2.2 id hmem id List.mem_cons_self rfl
    have hbefore : ∀ x ∈ done, id ∉ g.operands x := by
      have hpairwise := hloop.pairwise
      rw [heq, List.pairwise_append] at hpairwise
      exact fun x hx ↦ hpairwise.2.2 x hx id List.mem_cons_self
    have hkind : ∀ x ∈ done, ∀ n, g.node? x = some n → n.kind = .regRead → x ∈ loop.reads :=
      fun x hx ↦ hloop.reads_complete x (hsub x (List.mem_append_left _ hx))
    split at hstep
    case isTrue hread =>
      cases hstep
      exact hdone.step hid hbefore hkind (fun _ ↦ rfl) fun hnot ↦ absurd hread hnot
    case isFalse hnot =>
      obtain ⟨n, hn, hstep⟩ := Outcome.bind_eq_ok.mp hstep
      obtain ⟨i, hi, hstep⟩ := Outcome.bind_eq_ok.mp hstep
      cases hstep
      have hnode := nodeAt_eq_ok.mp hn
      refine hdone.step hid hbefore hkind (fun hread ↦ absurd hread hnot) fun _ ↦
        ⟨n, hnode, fun values ↦ ?_⟩
      have hself : id ∉ n.operands := by
        have hirrefl := hloop.irrefl id
        rwa [Graph.operands, hnode, Option.map_some, Option.getD_some] at hirrefl
      have hnotRead : n.kind ≠ .regRead := fun hk ↦
        hnot (hloop.reads_complete id (hsub id (by simp)) n hnode hk)
      exact (transfer_cons hnotRead hself).trans hi
  refine ⟨⟨?_, ?_, hpassed.nodes⟩, hpassed.frame⟩
  · intro id hid i hi
    rwa [← hpassed.frame id hid]
  · exact fun id hid ↦ hpassed.reads id (hloop.reads_subset id hid) hid

end Pass

/-! ## A run of the iteration -/

/-- A run from a seed in a given evaluation to the seed and the table at which it stops. -/
inductive Settles (g : Graph) (t : Tuning) (base : Env) (loop : FeedbackLoop)
    (thresholds : List Int) : Int → Interval → Interval → Env → Prop
  /-- Nothing new is written. -/
  | stop {iteration : Int} {seed written : Interval} {env : Env} :
    Evaluates g t base loop seed env → env.lookup loop.write = some written →
    written.leq seed = true → Settles g t base loop thresholds iteration seed seed env
  /-- The seed grows, and the run goes on. -/
  | next {iteration : Int} {seed written final : Interval} {env env' : Env} :
    Evaluates g t base loop seed env → env.lookup loop.write = some written →
    written.leq seed = false →
    Settles g t base loop thresholds (iteration + 1) (grow t thresholds iteration seed written)
      final env' →
    Settles g t base loop thresholds iteration seed final env'

namespace Settles

variable {base base' : Env} {loop : FeedbackLoop} {thresholds : List Int} {iteration : Int}
  {seed final : Interval}

theorem mono (h : Settles g t base loop thresholds iteration seed final env)
    (hbase : Extends base base') :
    Settles g t base' loop thresholds iteration seed final env := by
  induction h with
  | stop heval hwritten hleq => exact .stop (heval.mono hbase) hwritten hleq
  | next heval hwritten hleq _ ih => exact .next (heval.mono hbase) hwritten hleq ih

theorem leq_grow (iteration : Int) (seed written : Interval) :
    seed.leq (grow t thresholds iteration seed written) = true := by
  rw [grow]
  split
  case isTrue => exact Interval.leq_widen_left seed written thresholds
  case isFalse => exact Interval.leq_join_left seed written

theorem seed_leq (h : Settles g t base loop thresholds iteration seed final env) :
    seed.leq final = true := by
  induction h with
  | stop => exact Interval.leq_refl _
  | next _ _ _ _ ih => exact Interval.leq_trans (leq_grow _ _ _) ih

/-- The table at which a run stops belongs to the last seed, which covers what is written. -/
theorem evaluates (h : Settles g t base loop thresholds iteration seed final env) :
    Evaluates g t base loop final env ∧
      ∃ written, env.lookup loop.write = some written ∧ written.leq final = true := by
  induction h with
  | stop heval hwritten hleq => exact ⟨heval, _, hwritten, hleq⟩
  | next _ _ _ _ ih => exact ih

end Settles

/-! ## The seeds of a run -/

/-- The seeds of a run from a given evaluation on. At each seed but the last the loop was evaluated,
something new was written, and the seed grew. -/
inductive Traces (g : Graph) (t : Tuning) (base : Env) (loop : FeedbackLoop)
    (thresholds : List Int) : Int → List Interval → Prop
  /-- The last seed so far. -/
  | last {iteration : Int} {seed : Interval} : Traces g t base loop thresholds iteration [seed]
  /-- A seed that grew. -/
  | next {iteration : Int} {seed written : Interval} {env : Env} {rest : List Interval} :
    Evaluates g t base loop seed env → env.lookup loop.write = some written →
    written.leq seed = false →
    Traces g t base loop thresholds (iteration + 1)
      (grow t thresholds iteration seed written :: rest) →
    Traces g t base loop thresholds iteration
      (seed :: grow t thresholds iteration seed written :: rest)

section Traces

variable {base base' : Env} {loop : FeedbackLoop} {ends : List Int} {iteration : Int}
  {seed final written : Interval} {rest seeds : List Interval} {s : State}

theorem Traces.mono (h : Traces g t base loop ends iteration seeds) (hbase : Extends base base') :
    Traces g t base' loop ends iteration seeds := by
  induction h with
  | last => exact .last
  | next heval hwritten hleq _ ih => exact .next (heval.mono hbase) hwritten hleq ih

/-- Seeds that end where nothing new is written are a run. -/
theorem Traces.settles (h : Traces g t base loop ends iteration (seed :: rest))
    (hlast : (seed :: rest).getLast? = some final) (heval : Evaluates g t base loop final env)
    (hwritten : env.lookup loop.write = some written) (hleq : written.leq final = true) :
    Settles g t base loop ends iteration seed final env := by
  generalize hseeds : seed :: rest = seeds at h hlast
  induction h generalizing seed rest with
  | last =>
    cases hseeds
    obtain rfl := Option.some_inj.mp hlast
    exact .stop heval hwritten hleq
  | next heval' hwritten' hnew _ ih =>
    cases hseeds
    rw [List.getLast?_cons_cons] at hlast
    exact .next heval' hwritten' hnew (ih rfl hlast)

/-- What the iteration comes to: it stops at a seed that covers what is written, or goes on until
the evaluations run out, or comes to a seed at which the loop cannot be evaluated. -/
theorem settle_cases (t : Tuning) (s : State) (ends : List Int) (hloop : Scheduled g loop)
    (fuel : Nat) : ∀ (iteration : Int) (seed : Interval) (history : List Interval),
    ∃ rest, Traces g t s.env loop ends iteration (seed :: rest) ∧
      ((∃ env final written,
          settle g t s loop ends fuel iteration seed (seed :: history) =
            .ok (env, history.reverse ++ seed :: rest) ∧
          (seed :: rest).length ≤ fuel ∧ (seed :: rest).getLast? = some final ∧
          Evaluates g t s.env loop final env ∧ env.lookup loop.write = some written ∧
          written.leq final = true ∧ ∀ id ∉ loop.nodes, env.lookup id = s.env.lookup id) ∨
        (settle g t s loop ends fuel iteration seed (seed :: history) =
            .error (.diverged s.histories
              ⟨loop.register, loop.nodes, history.reverse ++ seed :: rest, t.maxIterations⟩) ∧
          (seed :: rest).length = fuel + 1) ∨
        ∃ cause stuck, settle g t s loop ends fuel iteration seed (seed :: history) =
            .error (.mishap s.histories cause) ∧
          ∀ env written, pass g t s loop stuck = .ok env →
            env.lookup loop.write ≠ some written) := by
  induction fuel with
  | zero =>
    intro iteration seed history
    refine ⟨[], .last, Or.inr (Or.inl ⟨?_, rfl⟩)⟩
    rw [settle, settleBy, List.reverse_cons]
  | succ fuel ih =>
    intro iteration seed history
    rw [settle, settleBy, ← pass]
    rcases hpass : pass g t s loop seed with cause | table
    · exact ⟨[], .last, Or.inr (Or.inr ⟨cause, seed, rfl, by simp [hpass]⟩)⟩
    obtain ⟨heval, hframe⟩ := pass_spec hloop hpass
    rcases hlookup : lookup table loop.write with cause | written
    · refine ⟨[], .last, Or.inr (Or.inr ⟨cause, seed, by simp only [hlookup], ?_⟩)⟩
      rintro env written henv hwritten
      obtain rfl := Except.ok.inj (hpass.symm.trans henv)
      rw [lookup_eq_ok.mpr hwritten] at hlookup
      cases hlookup
    have hwritten := lookup_eq_ok.mp hlookup
    simp only [hlookup]
    by_cases hleq : written.leq seed = true
    · refine ⟨[], .last, Or.inl ⟨table, seed, written, ?_, ?_, rfl, heval, hwritten, hleq, hframe⟩⟩
      · rw [if_pos hleq, List.reverse_cons]
      · rw [List.length_singleton]
        exact Nat.succ_pos fuel
    · -- the seed grows, and what is left of the run starts at the larger one
      obtain ⟨rest, htrace, hcases⟩ := ih (iteration + 1) (grow t ends iteration seed written)
        (seed :: history)
      refine ⟨grow t ends iteration seed written :: rest,
        .next heval hwritten (Bool.eq_false_iff.mpr hleq) htrace, ?_⟩
      rw [if_neg hleq]
      rw [List.reverse_cons, List.append_assoc, List.singleton_append] at hcases
      rcases hcases with ⟨env, final, w, heq, hlength, hlast, hstop⟩ | ⟨heq, hlength⟩ | herror
      · refine Or.inl ⟨env, final, w, heq, Nat.succ_le_succ hlength, ?_, hstop⟩
        rwa [List.getLast?_cons_cons]
      · exact Or.inr (Or.inl ⟨heq, congrArg Nat.succ hlength⟩)
      · exact Or.inr (Or.inr herror)

theorem settle_eq_ok (hloop : Scheduled g loop) {fuel : Nat}
    (h : settle g t s loop ends fuel iteration seed [seed] = .ok (env, seeds)) :
    ∃ rest final written, seeds = seed :: rest ∧ Traces g t s.env loop ends iteration seeds ∧
      seeds.length ≤ fuel ∧ seeds.getLast? = some final ∧ Evaluates g t s.env loop final env ∧
      env.lookup loop.write = some written ∧ written.leq final = true ∧
      ∀ id ∉ loop.nodes, env.lookup id = s.env.lookup id := by
  obtain ⟨rest, htrace, ⟨table, final, written, heq, hstop⟩ | ⟨heq, -⟩ | ⟨cause, -, heq, -⟩⟩ :=
    settle_cases t s ends hloop fuel iteration seed []
  all_goals
    rw [heq] at h
    cases h
  exact ⟨rest, final, written, rfl, htrace, hstop⟩

end Traces

end Inference

end Datapath
