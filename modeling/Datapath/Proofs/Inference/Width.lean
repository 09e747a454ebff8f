import Datapath.Proofs.Inference.Convergence

/-!
# Declared widths bound inferred ones

A register that declares a width is never found to hold more than its width represents. Its values
come from three places: the initial value, which validation has compared with the range; the writes,
which wrap; and the seeds of a loop, which grow by joins with what is written and by widening to the
ends of the range. None of them leaves the range, so neither do the values of the register, and the
reads take these over.

The width that is inferred may be of another sign than the declared one, since an interval without
negative values needs no sign. It has never more bits.
-/

namespace Datapath

namespace Graph

theorem RegisterLegal.exists_range {g : Graph} {r : Register} {width : Int}
    (h : g.RegisterLegal r) (hwidth : r.width = some width) :
    ∃ range : Interval, r.range = .ok (some (range.lo, range.hi)) ∧ r.init ∈ range ∧
      ∀ n ∈ range, BitWidth.Represents ⟨width.toNat, r.signed⟩ n := by
  obtain ⟨lo, hi, hbits, hle⟩ := exists_bitRange (h.width_pos width hwidth) r.signed
  have hrepresents := represents_iff_of_bitRange hbits
  refine ⟨⟨lo, hi, hle⟩, ?_, (hrepresents r.init).mp (h.init_held width hwidth),
    fun n hn ↦ (hrepresents n).mpr hn⟩
  rw [Register.range, hwidth]
  simp only [hbits]
  rfl

end Graph

namespace Inference

variable {g : Graph} {t : Tuning} {r : Register} {env : Env} {i range seed final : Interval}

theorem Settles.final_leq (hg : g.Coherent) (hlegal : g.Legal) {c : List Int}
    (hc : c ∈ g.dependencyComponents) {loop : FeedbackLoop} (hloop : g.IsLoopOf c loop)
    (hr : r ∈ g.registers) (hname : r.name = loop.register)
    (hrange : r.range = .ok (some (range.lo, range.hi))) {base : Env} {iteration : Int}
    (h : Settles g t base loop [range.lo, range.hi] iteration seed final env)
    (hseed : seed.leq range = true) : final.leq range = true := by
  induction h with
  | stop => exact hseed
  | next heval hwritten _ _ ih =>
    exact ih (grow_leq hseed (heval.written_leq hg hlegal hc hloop hr hname hrange hwritten))

/-- The values of a register lie in its range if the writes do. -/
theorem RegisterSolved.leq_range (hg : g.Coherent) (hlegal : g.Legal) (hr : r ∈ g.registers)
    (hrange : r.range = .ok (some (range.lo, range.hi))) (hinit : r.init ∈ range)
    (hwrite : ∀ write ∈ g.writes (.str r.name), ∀ j, env.lookup write = some j →
      j.leq range = true)
    (h : RegisterSolved g t env r i) : i.leq range = true := by
  have hpoint : (Interval.point r.init).leq range = true := Interval.leq_iff.mpr hinit
  cases h with
  | loop hc hloop hname hends hrun _ =>
    rw [thresholds_eq range hrange, Except.ok.injEq] at hends
    subst hends
    exact hrun.final_leq hg hlegal hc hloop hr hname.symm hrange hpoint
  | held _ hheld =>
    rw [heldValues] at hheld
    cases hfirst : g.write? (.str r.name) with
    | none =>
      rw [hfirst] at hheld
      cases hheld
      exact hpoint
    | some write =>
      simp only [hfirst] at hheld
      obtain ⟨j, hj, hjoin⟩ := Outcome.bind_eq_ok.mp hheld
      cases hjoin
      exact Interval.join_leq hpoint
        (hwrite write (Graph.mem_writes_of_write?_eq_some hfirst) j (lookup_eq_ok.mp hj))

theorem Solution.exists_write_leq (hg : g.Coherent) (hlegal : g.Legal) {result : Inference}
    (h : Solution g t result) (hr : r ∈ g.registers)
    (hrange : r.range = .ok (some (range.lo, range.hi))) :
    ∀ write ∈ g.writes (.str r.name), ∃ j, result.nodes.lookup write = some j ∧
      j.leq range = true := by
  intro write hwrite
  obtain ⟨n, hn, hkind, hregister, rfl⟩ := hg.mem_writes_iff.mp hwrite
  obtain ⟨j, hj, htransfer⟩ := h.node n hn (by rw [hkind]; decide)
  exact ⟨j, hj, transfer_write_leq hg hlegal hr hrange hkind hregister (htransfer [])⟩

/-- **Inferred widths do not exceed declared ones.** The values of a register with a width, what is
written to it and what its reads find all lie in the range of the width, and the width inferred for
the register has at most as many bits. -/
theorem register_within_declared_width {result : Inference} (h : g.Built)
    (hinfer : g.infer t = .ok result) (hr : r ∈ g.registers) {width : Int}
    (hwidth : r.width = some width) :
    (∃ i, result.registers.lookup r.name = some i ∧
      (∀ n ∈ i, BitWidth.Represents ⟨width.toNat, r.signed⟩ n) ∧ (i.width.bits : Int) ≤ width) ∧
    (∀ write ∈ g.writes (.str r.name), ∃ j, result.nodes.lookup write = some j ∧
      ∀ n ∈ j, BitWidth.Represents ⟨width.toNat, r.signed⟩ n) ∧
    ∀ read ∈ g.reads (.str r.name), ∃ j, result.nodes.lookup read = some j ∧
      ∀ n ∈ j, BitWidth.Represents ⟨width.toNat, r.signed⟩ n := by
  have hg := h.coherent
  obtain ⟨hlegal, hsolution⟩ := solution_of_infer hg hinfer
  obtain ⟨range, hrange, hinit, hrepresents⟩ := (hlegal.register r hr).exists_range hwidth
  have hwrites := hsolution.exists_write_leq hg hlegal hr hrange
  obtain ⟨i, hi, hsolved⟩ := hsolution.register r hr
  have hinside : i.leq range = true := by
    refine hsolved.leq_range hg hlegal hr hrange hinit fun write hwrite j hj ↦ ?_
    obtain ⟨k, hk, hleq⟩ := hwrites write hwrite
    rw [hk, Option.some_inj] at hj
    exact hj ▸ hleq
  have hrange_of_leq : ∀ {j : Interval}, j.leq range = true →
      ∀ n ∈ j, BitWidth.Represents ⟨width.toNat, r.signed⟩ n := fun hleq n hn ↦
    hrepresents n (Interval.mem_of_leq hleq hn)
  refine ⟨⟨i, hi, hrange_of_leq hinside, ?_⟩, fun write hwrite ↦ ?_, fun read hread ↦ ?_⟩
  · have hpos := (hlegal.register r hr).width_pos width hwidth
    have hbits := Interval.bits_width_le (by omega) (hrange_of_leq hinside)
    omega
  · obtain ⟨j, hj, hleq⟩ := hwrites write hwrite
    exact ⟨j, hj, hrange_of_leq hleq⟩
  · -- a read has the values of its register
    obtain ⟨j, hj, hvalue⟩ := hsolution.read r.name read hread
    rw [hi, Option.some_inj] at hvalue
    exact ⟨j, hj, hvalue ▸ hrange_of_leq hinside⟩

/-- The counter wraps at sixteen, so what it adds up to needs five bits, but its register four. -/
theorem counter_within_declared_width : ∃ result, Graph.counter.infer .default = .ok result ∧
    (∃ i, result.registers.lookup "count" = some i ∧ (i.width.bits : Int) ≤ 4) ∧
    (∃ j, result.nodes.lookup 3 = some j ∧ ∀ n ∈ j, BitWidth.Represents ⟨4, false⟩ n) ∧
    ∃ j, result.nodes.lookup 0 = some j ∧ ∀ n ∈ j, BitWidth.Represents ⟨4, false⟩ n := by
  obtain ⟨result, hresult⟩ := exists_infer_counter
  obtain ⟨⟨i, hi, -, hbits⟩, hwrites, hreads⟩ := register_within_declared_width
    Graph.counter_built hresult (List.mem_singleton_self _) (rfl : some (4 : Int) = some 4)
  exact ⟨result, hresult, ⟨i, hi, hbits⟩, hwrites 3 (by decide), hreads 0 (by decide)⟩

end Inference

end Datapath
