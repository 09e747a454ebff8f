import Datapath.Proofs.Inference.Solution

/-!
# Executions stay in the inferred intervals

What a graph computes, clock cycle by clock cycle, and the reason why width inference may be
trusted: every value that a node or a register ever takes lies in its interval.

## Cycles

In a cycle every node has a value that follows from the values of its operands and of the registers.
Inputs, comparisons and choices are open, so a graph has many executions. With the next tick a
register takes the value of its write.

## The two inductions

Inside a cycle the argument follows the order of operations: if the operands of a node lie in their
intervals, so does the node, by the soundness of its transfer function. From cycle to cycle it
follows the registers, whose intervals contain the initial value and whatever is written. Loops need
no argument of their own, since the intervals solve the dataflow equations everywhere.
-/

namespace Datapath

/-- What a register keeps of a value: the value modulo two to the power of the width, in the range
of the register. -/
def Register.reduce (r : Register) (value : Int) : Int :=
  match r.width with
  | none => value
  | some width =>
    if r.signed then value.bmod (2 ^ width.toNat) else value % 2 ^ width.toNat

namespace Graph

/-- The values of nodes and registers in a clock cycle. -/
structure Snapshot where
  node : Int → Int
  register : String → Int

/-- A value that a node may take in a cycle. The quotient by zero is zero. -/
inductive Computes (g : Graph) (t : Tuning) (σ : Snapshot) (n : Node) : Int → Prop
  | const {value : Int} : n.kind = .const → n.value = some value → Computes g t σ n value
  /-- An input with a declared range. -/
  | boundedInput {lo hi value : Int} : n.kind = .input → n.bounds = some (lo, hi) → lo ≤ value →
    value ≤ hi → Computes g t σ n value
  /-- An input without a declared range. -/
  | input {value : Int} : n.kind = .input → n.bounds = none →
    BitWidth.Represents ⟨t.inputBits.toNat, t.inputSigned⟩ value → Computes g t σ n value
  | add {a b : Int} : n.kind = .add → n.operands = [a, b] →
    Computes g t σ n (σ.node a + σ.node b)
  | sub {a b : Int} : n.kind = .sub → n.operands = [a, b] →
    Computes g t σ n (σ.node a - σ.node b)
  | mul {a b : Int} : n.kind = .mul → n.operands = [a, b] →
    Computes g t σ n (σ.node a * σ.node b)
  /-- A quotient, truncated toward zero. -/
  | div {a b : Int} : n.kind = .div → n.operands = [a, b] →
    Computes g t σ n ((σ.node a).tdiv (σ.node b))
  /-- The outcome of a comparison. -/
  | compare {value : Int} : n.kind = .compare → value = 0 ∨ value = 1 → Computes g t σ n value
  /-- Any branch of a choice. -/
  | mux {select branch : Int} {branches : List Int} : n.kind = .mux →
    n.operands = select :: branches → branch ∈ branches → Computes g t σ n (σ.node branch)
  /-- A copy. -/
  | copy {a : Int} : n.kind ∈ [Kind.varRef, .binding, .output] → n.operands = [a] →
    Computes g t σ n (σ.node a)
  /-- A field without a declared range. -/
  | field {a : Int} : n.kind = .fieldGet → n.bounds = none → n.operands = [a] →
    Computes g t σ n (σ.node a)
  /-- A field with a declared range. -/
  | boundedField {lo hi value : Int} : n.kind = .fieldGet → n.bounds = some (lo, hi) →
    lo ≤ value → value ≤ hi → Computes g t σ n value
  /-- A write, reduced to the range of the register. -/
  | write {a : Int} {r : Register} : n.kind = .regWrite → n.operands = [a] → r ∈ g.registers →
    n.register = some (.str r.name) → Computes g t σ n (r.reduce (σ.node a))
  | read {name : String} : n.kind = .regRead → n.register = some (.str name) →
    Computes g t σ n (σ.register name)

theorem Computes.eq_register {g : Graph} {t : Tuning} {σ : Snapshot} {n : Node} {name : String}
    {value : Int} (h : g.Computes t σ n value) (hkind : n.kind = .regRead)
    (hname : n.register = some (.str name)) : value = σ.register name := by
  cases h with
  | read _ hname' =>
    rw [hname] at hname'
    cases hname'
    rfl
  | _ => simp_all

/-- The value of a register after a tick: what is written to it, or else what it holds. -/
def nextValue (g : Graph) (σ : Snapshot) (r : Register) : Int :=
  match g.write? (.str r.name) with
  | some write => σ.node write
  | none => σ.register r.name

/-- The cycles of an execution, the latest first. -/
inductive Execution (g : Graph) (t : Tuning) : List Snapshot → Prop
  /-- Registers start at their initial values. -/
  | start {σ : Snapshot} : (∀ r ∈ g.registers, σ.register r.name = r.init) →
    (∀ n ∈ g.nodes, g.Computes t σ n (σ.node n.id)) → Execution g t [σ]
  | tick {σ σ' : Snapshot} {past : List Snapshot} : Execution g t (σ :: past) →
    (∀ r ∈ g.registers, σ'.register r.name = g.nextValue σ r) →
    (∀ n ∈ g.nodes, g.Computes t σ' n (σ'.node n.id)) → Execution g t (σ' :: σ :: past)

end Graph

/-! ## Reduction -/

private theorem represents_bmod (bits : Nat) (n : Int) :
    BitWidth.Represents ⟨bits + 1, true⟩ (n.bmod (2 ^ (bits + 1))) := by
  have hpower : 2 ^ (bits + 1) = 2 * 2 ^ bits := Nat.pow_succ'
  have hpos : 0 < 2 ^ (bits + 1) := Nat.two_pow_pos _
  have hlower := Int.le_bmod (x := n) hpos
  have hupper := Int.bmod_lt (x := n) hpos
  simp only [BitWidth.Represents, if_true, Nat.add_sub_cancel]
  push_cast at *
  omega

private theorem bmod_of_represents {bits : Nat} {n : Int}
    (h : BitWidth.Represents ⟨bits + 1, true⟩ n) : n.bmod (2 ^ (bits + 1)) = n := by
  have hpower : 2 ^ (bits + 1) = 2 * 2 ^ bits := Nat.pow_succ'
  simp only [BitWidth.Represents, if_true, Nat.add_sub_cancel] at h
  refine Int.bmod_eq_of_le ?_ ?_
  · push_cast at *
    omega
  · push_cast at *
    omega

/-- Reduction leads into the range of a register, and leaves the values in it alone. -/
theorem Register.reduce_spec {r : Register} {width lo hi : Int} (hwidth : r.width = some width)
    (hrange : bitRange width r.signed = .ok (lo, hi)) (n : Int) :
    (lo ≤ r.reduce n ∧ r.reduce n ≤ hi) ∧ (lo ≤ n ∧ n ≤ hi → r.reduce n = n) := by
  rw [← represents_iff_of_bitRange hrange, ← represents_iff_of_bitRange hrange]
  simp only [Register.reduce, hwidth]
  cases hsigned : r.signed with
  | false =>
    have hpos : (0 : Int) < 2 ^ width.toNat := Int.pow_pos (by decide)
    simp only [BitWidth.Represents, Bool.false_eq_true, if_false]
    exact ⟨⟨Int.emod_nonneg n hpos.ne', Int.emod_lt_of_pos n hpos⟩,
      fun h ↦ Int.emod_eq_of_lt h.1 h.2⟩
  | true =>
    have hbits : ∃ bits, width.toNat = bits + 1 := by
      rw [hsigned] at hrange
      simp only [bitRange, if_true] at hrange
      split at hrange
      case isTrue => cases hrange
      case isFalse => exact ⟨(width - 1).toNat, by omega⟩
    obtain ⟨bits, hbits⟩ := hbits
    rw [hbits]
    exact ⟨represents_bmod bits n, bmod_of_represents⟩

namespace Inference

variable {g : Graph} {t : Tuning} {n : Node} {r : Register} {env : Env} {i a : Interval}
  {values : List (String × Interval)} {σ : Graph.Snapshot} {x : Int}

theorem reduce_mem (hr : g.register? r.name = some r) (h : written g r.name a = .ok i)
    (hx : x ∈ a) : r.reduce x ∈ i := by
  obtain ⟨r', hr', h⟩ := Outcome.bind_eq_ok.mp h
  rw [declared_eq_ok, hr] at hr'
  cases hr'
  obtain ⟨range, hrange, h⟩ := Outcome.bind_eq_ok.mp h
  rw [Register.range] at hrange
  cases hwidth : r.width with
  | none =>
    rw [hwidth] at hrange
    cases hrange
    cases h
    simpa only [Register.reduce, hwidth] using hx
  | some width =>
    rw [hwidth] at hrange
    obtain ⟨⟨lo, hi⟩, hbits, hrange⟩ := Outcome.map_eq_ok.mp hrange
    subst hrange
    obtain ⟨hinside, hsame⟩ := Register.reduce_spec hwidth hbits x
    simp only [Interval.wrap] at h
    split at h
    case isTrue hfits =>
      cases h
      rw [Interval.mem_iff] at hx
      rwa [hsame (by omega), Interval.mem_iff]
    case isFalse => exact (Interval.mem_make_iff h).mpr hinside

/-! ## One node -/

/-- **Transfer functions are sound**: what a node computes from operands in their intervals lies in
the interval that its transfer function gives. -/
theorem transfer_sound (hg : g.Coherent) (hkind : n.kind ≠ .regRead) {value : Int}
    (hvalue : g.Computes t σ n value) (h : transfer g t env values n = .ok i)
    (hoperands : ∀ o ∈ n.operands, ∀ j, env.lookup o = some j → σ.node o ∈ j) : value ∈ i := by
  rw [transfer] at h
  obtain ⟨operands, hmap, h⟩ := Outcome.bind_eq_ok.mp h
  have hall : List.Forall₂ (fun o j ↦ σ.node o ∈ j) n.operands operands := by
    refine ((List.forall₂_and_left _ _).mpr ⟨fun o ho ↦ ho, Outcome.mapM_eq_ok.mp hmap⟩).imp ?_
    exact fun o j ho ↦ hoperands o ho.1 j (lookup_eq_ok.mp ho.2)
  have hone : ∀ {a : Int}, n.operands = [a] → ∃ j, operands = [j] ∧ σ.node a ∈ j := by
    intro a ho
    rw [ho] at hall
    obtain _ | ⟨ha, _ | _⟩ := hall
    exact ⟨_, rfl, ha⟩
  have htwo : ∀ {a b : Int}, n.operands = [a, b] →
      ∃ j k, operands = [j, k] ∧ σ.node a ∈ j ∧ σ.node b ∈ k := by
    intro a b ho
    rw [ho] at hall
    obtain _ | ⟨ha, _ | ⟨hb, _ | _⟩⟩ := hall
    exact ⟨_, _, rfl, ha, hb⟩
  cases hvalue with
  | const hk hv =>
    simp only [hk, hv] at h
    cases h
    exact Interval.mem_point_iff.mpr rfl
  | boundedInput hk hb hlo hhi =>
    simp only [hk, hb] at h
    exact (Interval.mem_make_iff h).mpr ⟨hlo, hhi⟩
  | input hk hb hrep =>
    simp only [hk, hb, Tuning.inputInterval] at h
    exact (Interval.mem_ofWidth_iff h).mpr hrep
  | add hk ho =>
    obtain ⟨j, k, rfl, ha, hb⟩ := htwo ho
    simp only [hk] at h
    cases h
    exact Interval.add_mem ha hb
  | sub hk ho =>
    obtain ⟨j, k, rfl, ha, hb⟩ := htwo ho
    simp only [hk] at h
    cases h
    exact Interval.sub_mem ha hb
  | mul hk ho =>
    obtain ⟨j, k, rfl, ha, hb⟩ := htwo ho
    simp only [hk] at h
    cases h
    exact Interval.mul_mem ha hb
  | div hk ho =>
    obtain ⟨j, k, rfl, ha, hb⟩ := htwo ho
    simp only [hk] at h
    cases h
    exact Interval.tdiv_mem ha hb
  | compare hk hv =>
    rw [hk] at h
    obtain _ | ⟨j, _ | ⟨k, rest⟩⟩ := operands
    · cases h
    · cases h
    · cases h
      exact Interval.mem_compare hv
  | mux hk ho hbranch =>
    rw [ho] at hall
    obtain _ | ⟨-, hbranches⟩ := hall
    simp only [hk] at h
    obtain ⟨j, hj, hmem⟩ := Outcome.exists_mem_of_forall₂ hbranches hbranch
    exact Interval.mem_of_leq (Interval.leq_hull h hj) hmem
  | copy hk ho =>
    obtain ⟨j, rfl, ha⟩ := hone ho
    simp only [List.mem_cons, List.not_mem_nil, or_false] at hk
    rcases hk with hk | hk | hk
    · simp only [hk] at h
      cases h
      exact ha
    · simp only [hk] at h
      cases h
      exact ha
    · simp only [hk] at h
      cases h
      exact ha
  | field hk hb ho =>
    obtain ⟨j, rfl, ha⟩ := hone ho
    simp only [hk, hb] at h
    cases h
    exact ha
  | boundedField hk hb hlo hhi =>
    rw [hk] at h
    obtain _ | ⟨j, rest⟩ := operands
    · cases h
    · simp only [hb] at h
      exact (Interval.mem_make_iff h).mpr ⟨hlo, hhi⟩
  | write hk ho hr hregister =>
    obtain ⟨j, rfl, ha⟩ := hone ho
    simp only [hk, Node.registerName?_eq_some.mpr hregister] at h
    exact reduce_mem (hg.register?_name hr) h ha
  | read hk => exact absurd hk hkind

/-! ## One cycle -/

/-- The values of a cycle lie in the inferred intervals. -/
structure Covers (g : Graph) (result : Inference) (σ : Graph.Snapshot) : Prop where
  node : ∀ n ∈ g.nodes, ∃ i, result.nodes.lookup n.id = some i ∧ σ.node n.id ∈ i
  register : ∀ r ∈ g.registers, ∃ i, result.registers.lookup r.name = some i ∧
    σ.register r.name ∈ i

variable {result : Inference}

/-- If the registers of a cycle lie in their intervals, then so do its nodes. -/
theorem Solution.covers (hg : g.Coherent) (hlegal : g.Legal) (h : Solution g t result)
    (hregister : ∀ r ∈ g.registers, ∃ i, result.registers.lookup r.name = some i ∧
      σ.register r.name ∈ i)
    (hnode : ∀ n ∈ g.nodes, g.Computes t σ n (σ.node n.id)) : Covers g result σ := by
  refine ⟨fun n hn ↦ ?_, hregister⟩
  -- by induction on the place in the order of operations
  induction hplace : g.readyOrder.idxOf n.id using Nat.strong_induction_on generalizing n with
  | _ place ih =>
    by_cases hkind : n.kind = .regRead
    · obtain ⟨r, hr, hname, hread⟩ := hlegal.exists_register_of_read hg hn hkind
      obtain ⟨i, hi, hvalue⟩ := h.read r.name n.id hread
      obtain ⟨j, hj, hmem⟩ := hregister r hr
      rw [hvalue] at hj
      cases hj
      exact ⟨i, hi, (hnode n hn).eq_register hkind hname ▸ hmem⟩
    · obtain ⟨i, hi, htransfer⟩ := h.node n hn hkind
      refine ⟨i, hi, transfer_sound hg hkind (hnode n hn) (htransfer []) fun o ho j hj ↦ ?_⟩
      have hoperand : o ∈ g.operands n.id := by rwa [hg.operands_id hn]
      obtain ⟨m, hm, rfl⟩ := List.mem_map.mp (hlegal.operandsKnown n hn o ho)
      have hplaced := hlegal.mem_readyOrder hg (Graph.mem_ids_of_mem_nodes hn)
      have hbefore := Graph.idxOf_lt_of_mem_operands hg hplaced hoperand
      obtain ⟨k, hk, hmem⟩ := ih _ (hplace ▸ hbefore) m hm rfl
      rw [hj] at hk
      cases hk
      exact hmem

/-! ## All cycles -/

/-- The registers of the next cycle lie in their intervals. -/
theorem Covers.nextValue_mem (hg : g.Coherent) (hlegal : g.Legal) (hsolution : Solution g t result)
    (h : Covers g result σ) (hr : r ∈ g.registers) :
    ∃ i, result.registers.lookup r.name = some i ∧ g.nextValue σ r ∈ i := by
  obtain ⟨i, hi, hsolved⟩ := hsolution.register r hr
  obtain ⟨-, -, hwritten⟩ := hsolved.cover hg hlegal
  refine ⟨i, hi, ?_⟩
  rw [Graph.nextValue]
  cases hwrite : g.write? (.str r.name) with
  | none =>
    obtain ⟨j, hj, hmem⟩ := h.register r hr
    rw [hi] at hj
    cases hj
    exact hmem
  | some write =>
    have hmem := Graph.mem_writes_of_write?_eq_some hwrite
    obtain ⟨j, hj, hleq, -⟩ := hwritten write hmem
    obtain ⟨m, hm, rfl⟩ := List.mem_map.mp (hg.mem_ids_of_mem_writes hmem)
    obtain ⟨k, hk, hvalue⟩ := h.node m hm
    rw [hj] at hk
    cases hk
    exact Interval.mem_of_leq hleq hvalue

theorem Solution.covers_execution (hg : g.Coherent) (hlegal : g.Legal)
    (hsolution : Solution g t result) {cycles : List Graph.Snapshot} (h : g.Execution t cycles) :
    ∀ σ ∈ cycles, Covers g result σ := by
  induction h with
  | @start σ hinit hnode =>
    rw [List.forall_mem_singleton]
    refine hsolution.covers hg hlegal (fun r hr ↦ ?_) hnode
    obtain ⟨i, hi, hsolved⟩ := hsolution.register r hr
    exact ⟨i, hi, hinit r hr ▸ (hsolved.cover hg hlegal).1⟩
  | @tick σ σ' past _ hnext hnode ih =>
    rw [List.forall_mem_cons]
    refine ⟨hsolution.covers hg hlegal (fun r hr ↦ ?_) hnode, ih⟩
    rw [hnext r hr]
    exact (ih σ List.mem_cons_self).nextValue_mem hg hlegal hsolution hr

/-- **Width inference is sound.** In every cycle of every execution the value of every node lies in
its interval and is represented by its width, and the value of every register lies among the values
inferred for it. -/
theorem execution_within_inference (h : g.Built) (hinfer : g.infer t = .ok result)
    {cycles : List Graph.Snapshot} (hrun : g.Execution t cycles) :
    ∀ σ ∈ cycles,
      (∀ n ∈ g.nodes, ∃ i, result.nodes.lookup n.id = some i ∧ σ.node n.id ∈ i ∧
        i.width.Represents (σ.node n.id)) ∧
      ∀ r ∈ g.registers, ∃ i, result.registers.lookup r.name = some i ∧ σ.register r.name ∈ i := by
  intro σ hσ
  obtain ⟨hlegal, hsolution⟩ := solution_of_infer h.coherent hinfer
  have hcovers := hsolution.covers_execution h.coherent hlegal hrun σ hσ
  refine ⟨fun n hn ↦ ?_, hcovers.register⟩
  obtain ⟨i, hi, hmem⟩ := hcovers.node n hn
  exact ⟨i, hi, hmem, Interval.represents_width hmem⟩

/-- A cycle of the counter. -/
def countingAt (k : Int) : Graph.Snapshot where
  node id := if id = 0 then k else if id = 1 then 1 else if id = 2 then k + 1 else (k + 1) % 16
  register _ := k

theorem computes_countingAt (k : Int) : ∀ n ∈ Graph.counter.nodes,
    Graph.counter.Computes .default (countingAt k) n ((countingAt k).node n.id) := by
  have hsum : Graph.counter.Computes .default (countingAt k) ⟨.binary .add 0 1 none, 2⟩ (k + 1) :=
    .add (a := 0) (b := 1) rfl rfl
  have hwrite : Graph.counter.Computes .default (countingAt k)
      ⟨.regWrite (.str "count") 2 none, 3⟩ ((k + 1) % 16) :=
    .write (a := 2) (r := ⟨"count", 0, some 4, false⟩) rfl rfl List.mem_cons_self rfl
  rw [Graph.counter, Graph.nodes_ofParts, List.forall_mem_cons, List.forall_mem_cons,
    List.forall_mem_cons, List.forall_mem_singleton]
  exact ⟨.read rfl rfl, .const rfl rfl, hsum, hwrite⟩

theorem counting_within_inference : ∃ result, Graph.counter.infer .default = .ok result ∧
    Graph.counter.Execution .default [countingAt 1, countingAt 0] ∧
    ∃ i, result.registers.lookup "count" = some i ∧ (1 : Int) ∈ i := by
  obtain ⟨result, hresult⟩ := exists_infer_counter
  have hrun : Graph.counter.Execution .default [countingAt 1, countingAt 0] := by
    refine .tick (.start ?_ (computes_countingAt 0)) ?_ (computes_countingAt 1)
    · exact List.forall_mem_singleton.mpr rfl
    · exact List.forall_mem_singleton.mpr rfl
  have hcovered := execution_within_inference Graph.counter_built hresult hrun _ List.mem_cons_self
  exact ⟨result, hresult, hrun, hcovered.2 ⟨"count", 0, some 4, false⟩ List.mem_cons_self⟩

end Inference

end Datapath
