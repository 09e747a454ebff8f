import Datapath.Extent
import Datapath.Proofs.Interval.Soundness

/-!
# Optimality of the interval operations

Soundness alone would allow results that are larger than they have to be. This module shows that
none is: the ends of a sum, a difference, a product or a quotient are attained by elements of the
arguments, so no smaller interval contains every outcome.

## Where the ends come from

Products and quotients are spans of finitely many integers, and a span has its ends among them. Each
of these integers is an outcome: a corner is made of two ends, the divisors that are split off
around zero are divisors themselves, and zero is listed only if it is a divisor.

## Widths

The width of an interval is the least that represents its elements. The range of a width needs all
of its bits, so the two are inverse to each other, as far as ranges can be calculated: a machine
calculates the range of a width if a power of two fits into its memory, and otherwise comes to a
mishap.
-/

namespace Datapath

namespace Interval

variable {a b c : Interval} {op : Int → Int → Int}

/-! ## Best results -/

/-- An interval is the best result for an operation on the elements of two others. -/
structure Best (op : Int → Int → Int) (a b c : Interval) : Prop where
  /-- It contains every outcome. -/
  sound : ∀ x ∈ a, ∀ y ∈ b, op x y ∈ c
  lo_attained : ∃ x ∈ a, ∃ y ∈ b, op x y = c.lo
  hi_attained : ∃ x ∈ a, ∃ y ∈ b, op x y = c.hi
  /-- It lies in every interval that contains every outcome. -/
  least : ∀ d : Interval, (∀ x ∈ a, ∀ y ∈ b, op x y ∈ d) → c.leq d = true

theorem best_of_attained (hsound : ∀ x ∈ a, ∀ y ∈ b, op x y ∈ c)
    (hlo : ∃ x ∈ a, ∃ y ∈ b, op x y = c.lo) (hhi : ∃ x ∈ a, ∃ y ∈ b, op x y = c.hi) :
    Best op a b c := by
  refine ⟨hsound, hlo, hhi, fun d hd ↦ leq_iff.mpr ⟨?_, ?_⟩⟩
  · obtain ⟨x, hx, y, hy, heq⟩ := hlo
    exact heq ▸ (hd x hx y hy).1
  · obtain ⟨x, hx, y, hy, heq⟩ := hhi
    exact heq ▸ (hd x hx y hy).2

theorem ends_span_mem (m : Int) (ms : List Int) :
    (span m ms).lo ∈ m :: ms ∧ (span m ms).hi ∈ m :: ms := by
  have hmem : ∀ p ∈ m :: ms, p ∈ span m ms := fun p hp ↦
    mem_span_iff.mpr ⟨⟨p, hp, le_rfl⟩, p, hp, le_rfl⟩
  obtain ⟨⟨p, hp, hple⟩, -⟩ := mem_span_iff.mp (span m ms).lo_mem
  obtain ⟨-, q, hq, hleq⟩ := mem_span_iff.mp (span m ms).hi_mem
  constructor
  · rwa [le_antisymm (hmem p hp).1 hple]
  · rwa [le_antisymm hleq (hmem q hq).2]

/-- A span of outcomes that contains every outcome is the best result. -/
theorem best_span {m : Int} {ms : List Int} (hsound : ∀ x ∈ a, ∀ y ∈ b, op x y ∈ span m ms)
    (hattained : ∀ p ∈ m :: ms, ∃ x ∈ a, ∃ y ∈ b, op x y = p) : Best op a b (span m ms) :=
  best_of_attained hsound (hattained _ (ends_span_mem m ms).1) (hattained _ (ends_span_mem m ms).2)

/-! ## Arithmetic -/

theorem best_add (a b : Interval) : Best (· + ·) a b (a.add b) :=
  best_of_attained (fun _ hx _ hy ↦ add_mem hx hy) ⟨a.lo, a.lo_mem, b.lo, b.lo_mem, rfl⟩
    ⟨a.hi, a.hi_mem, b.hi, b.hi_mem, rfl⟩

theorem best_sub (a b : Interval) : Best (· - ·) a b (a.sub b) :=
  best_of_attained (fun _ hx _ hy ↦ sub_mem hx hy) ⟨a.lo, a.lo_mem, b.hi, b.hi_mem, rfl⟩
    ⟨a.hi, a.hi_mem, b.lo, b.lo_mem, rfl⟩

theorem exists_of_mem_corners {c d p : Int} (hc : c ∈ b) (hd : d ∈ b)
    (hp : p ∈ [op a.lo c, op a.lo d, op a.hi c, op a.hi d]) : ∃ x ∈ a, ∃ y ∈ b, op x y = p := by
  simp only [List.mem_cons, List.not_mem_nil, or_false] at hp
  rcases hp with rfl | rfl | rfl | rfl
  · exact ⟨a.lo, a.lo_mem, c, hc, rfl⟩
  · exact ⟨a.lo, a.lo_mem, d, hd, rfl⟩
  · exact ⟨a.hi, a.hi_mem, c, hc, rfl⟩
  · exact ⟨a.hi, a.hi_mem, d, hd, rfl⟩

theorem best_mul (a b : Interval) : Best (· * ·) a b (a.mul b) :=
  best_span (fun _ hx _ hy ↦ mul_mem hx hy) fun _ ↦ exists_of_mem_corners b.lo_mem b.hi_mem

theorem mem_of_mem_divisorParts {part : Int × Int} (h : part ∈ divisorParts b) :
    part.1 ∈ b ∧ part.2 ∈ b := by
  have hb := b.lo_le_hi
  simp only [divisorParts, List.mem_append, List.mem_ite_nil_right, List.mem_singleton] at h
  simp only [mem_iff]
  rcases h with ⟨hneg, rfl⟩ | ⟨hpos, rfl⟩
  · omega
  · omega

theorem exists_of_mem_quotients {q : Int} (h : q ∈ quotients a b) :
    ∃ x ∈ a, ∃ y ∈ b, x.tdiv y = q := by
  rw [quotients, List.mem_append, List.mem_flatMap, List.mem_ite_nil_right] at h
  rcases h with ⟨part, hpart, hcorner⟩ | ⟨hzero, hq⟩
  · obtain ⟨hfirst, hlast⟩ := mem_of_mem_divisorParts hpart
    exact exists_of_mem_corners hfirst hlast hcorner
  · rw [List.mem_singleton.mp hq]
    exact ⟨a.lo, a.lo_mem, 0, contains_iff_mem.mp hzero, Int.tdiv_zero _⟩

/-- There is always a divisor, be it zero. -/
theorem quotients_ne_nil (a b : Interval) : quotients a b ≠ [] := by
  intro hnil
  rw [quotients, List.append_eq_nil_iff, List.flatMap_eq_nil_iff] at hnil
  obtain ⟨hparts, hzero⟩ := hnil
  have hnone : divisorParts b = [] :=
    List.eq_nil_iff_forall_not_mem.mpr fun part hpart ↦ List.cons_ne_nil _ _ (hparts part hpart)
  rw [divisorParts, List.append_eq_nil_iff] at hnone
  have hcontains : b.contains 0 = true := by
    have hb := b.lo_le_hi
    rw [contains_iff_mem, mem_iff]
    simp only [ite_eq_right_iff, List.cons_ne_nil, imp_false] at hnone
    omega
  rw [if_pos hcontains] at hzero
  cases hzero

theorem best_div (a b : Interval) : Best Int.tdiv a b (a.div b) := by
  have hsound : ∀ x ∈ a, ∀ y ∈ b, x.tdiv y ∈ a.div b := fun _ hx _ hy ↦ tdiv_mem hx hy
  rw [div] at hsound ⊢
  split at hsound
  case h_1 hnil => exact absurd hnil (quotients_ne_nil a b)
  case h_2 q qs hquotients =>
    refine best_span hsound fun p hp ↦ exists_of_mem_quotients ?_
    rwa [hquotients]

/-- **Interval arithmetic gives the best results.** Sums, differences, products and quotients
contain the outcome for all elements of the arguments, their ends are attained, and no smaller
interval would do. A quotient is truncated toward zero, and zero if the divisor is; there is always
one to begin with. -/
theorem arithmetic_best (a b : Interval) :
    Best (· + ·) a b (a.add b) ∧ Best (· - ·) a b (a.sub b) ∧ Best (· * ·) a b (a.mul b) ∧
      quotients a b ≠ [] ∧ Best Int.tdiv a b (a.div b) :=
  ⟨best_add a b, best_sub a b, best_mul a b, quotients_ne_nil a b, best_div a b⟩

/-- A divisor on both sides of zero, where the extreme quotients are those by one and minus one. -/
example : (⟨-7, 5, by decide⟩ : Interval).div ⟨-2, 3, by decide⟩ = ⟨-7, 7, by decide⟩ := by decide

/-! ## Widths -/

theorem signed_width_iff (a : Interval) : a.width.signed = true ↔ a.lo < 0 := by
  rw [width]
  split
  case isTrue hnonneg => simpa using hnonneg
  case isFalse hneg => simpa using hneg

theorem one_le_bits_width (a : Interval) : 1 ≤ a.width.bits := by
  rw [width]
  split
  case isTrue => exact le_max_left _ _
  case isFalse => exact Nat.le_add_left _ _

theorem exists_ofWidth {bits : Int} (h : 1 ≤ bits) (signed : Bool) :
    ∃ range, ofWidth bits signed = .ok range := by
  obtain ⟨lo, hi, hrange, hle⟩ := exists_bitRange h signed
  refine ⟨⟨lo, hi, hle⟩, ?_⟩
  rw [ofWidth, hrange]
  exact dif_pos hle

/-- A width that represents the whole range of another of the same sign has as many bits. -/
theorem bits_le_of_represents {bits bits' : Nat} {signed : Bool} (hpos : 1 ≤ bits')
    (h : ∀ n, BitWidth.Represents ⟨bits, signed⟩ n → BitWidth.Represents ⟨bits', signed⟩ n) :
    bits ≤ bits' := by
  have hpow : ∀ k : Nat, (0 : Int) < 2 ^ k := fun k ↦ Int.pow_pos (by decide)
  cases signed with
  | false =>
    have hhigh := h (2 ^ bits - 1)
    simp only [BitWidth.Represents, Bool.false_eq_true, if_false] at hhigh
    have := hpow bits
    have hlt := (hhigh (by omega)).2
    exact (pow_le_pow_iff_right₀ (by decide : (1 : Int) < 2)).mp (by omega)
  | true =>
    have hlow := h (-2 ^ (bits - 1))
    simp only [BitWidth.Represents, if_true] at hlow
    have := hpow (bits - 1)
    have hle := (hlow (by omega)).1
    have hexponent := (pow_le_pow_iff_right₀ (by decide : (1 : Int) < 2)).mp (neg_le_neg_iff.mp hle)
    omega

theorem width_ofWidth {bits : Int} {signed : Bool} {range : Interval} (hbits : 1 ≤ bits)
    (h : ofWidth bits signed = .ok range) : range.width = ⟨bits.toNat, signed⟩ := by
  have hmem : ∀ n, n ∈ range ↔ BitWidth.Represents ⟨bits.toNat, signed⟩ n := fun n ↦
    mem_ofWidth_iff h
  have hsigned : range.width.signed = signed := by
    rw [Bool.eq_iff_iff, signed_width_iff]
    cases signed with
    | false =>
      have hlo := (hmem range.lo).mp range.lo_mem
      simp only [BitWidth.Represents, Bool.false_eq_true, if_false] at hlo
      simpa using hlo.1
    | true =>
      have hpow : (0 : Int) < 2 ^ (bits.toNat - 1) := Int.pow_pos (by decide)
      have hneg : -1 ∈ range := by
        rw [hmem]
        simp only [BitWidth.Represents, if_true]
        omega
      simpa using hneg.1.trans_lt (by decide)
  have hrepresents : ∀ n, BitWidth.Represents ⟨bits.toNat, signed⟩ n →
      BitWidth.Represents ⟨range.width.bits, signed⟩ n := by
    intro n hn
    have hwidth := represents_width ((hmem n).mpr hn)
    rwa [← hsigned]
  have hcount : range.width.bits = bits.toNat :=
    le_antisymm (bits_width_le (by omega) fun n ↦ (hmem n).mp)
      (bits_le_of_represents range.one_le_bits_width hrepresents)
  rw [← hcount, ← hsigned]

private theorem represents_of_le {bits bits' : Nat} {signed : Bool} {n : Int} (h : bits ≤ bits')
    (hn : BitWidth.Represents ⟨bits, signed⟩ n) : BitWidth.Represents ⟨bits', signed⟩ n := by
  have hpow : ∀ {k k' : Nat}, k ≤ k' → (2 : Int) ^ k ≤ 2 ^ k' := fun hle ↦
    (pow_le_pow_iff_right₀ (by decide)).mpr hle
  cases signed with
  | false => exact ⟨hn.1, hn.2.trans_le (hpow h)⟩
  | true =>
    have hle := hpow (Nat.sub_le_sub_right h 1)
    exact ⟨(neg_le_neg hle).trans hn.1, hn.2.trans_le hle⟩

theorem leq_ofWidth_iff {bits : Int} {range : Interval} (hbits : 1 ≤ bits)
    (h : ofWidth bits a.width.signed = .ok range) :
    a.leq range = true ↔ (a.width.bits : Int) ≤ bits := by
  constructor
  · intro hleq
    have hle := bits_width_le (by omega) fun n hn ↦ (mem_ofWidth_iff h).mp (mem_of_leq hleq hn)
    omega
  · intro hle
    have hbits' : a.width.bits ≤ bits.toNat := by omega
    refine leq_iff_forall_mem.mpr fun n hn ↦ (mem_ofWidth_iff h).mpr ?_
    exact represents_of_le hbits' (represents_width hn)

end Interval

namespace Extent

variable {m : Machine} {bits : Int} {signed : Bool}

@[simp] theorem width_ofInterval (a : Interval) : (ofInterval a).width = .ok a.width := by
  rw [width, interval?_ofInterval]

@[simp] theorem leq_ofInterval (a b : Interval) :
    (ofInterval a).leq (ofInterval b) = .ok (a.leq b) := by
  rw [leq, lift, interval?_ofInterval, interval?_ofInterval]

theorem ofWidth_eq (h : m.rangeMishap? bits signed = none) :
    ofWidth m (.int bits) (.bool signed) = (Interval.ofWidth bits signed).map ofInterval := by
  have hrange : bitRange m (.int bits) (.bool signed) = Datapath.bitRange bits signed := by
    show m.bitRange bits signed = _
    rw [Machine.bitRange, h]
  rw [ofWidth, hrange, Interval.ofWidth]
  cases Datapath.bitRange bits signed <;> rfl

theorem ofWidth_eq_error {mishap : Mishap} (h : m.rangeMishap? bits signed = some mishap) :
    ofWidth m (.int bits) (.bool signed) = .error mishap := by
  have hrange : bitRange m (.int bits) (.bool signed) = .error mishap := by
    show m.bitRange bits signed = _
    rw [Machine.bitRange, h]
  rw [ofWidth, hrange]
  rfl

theorem exists_ofWidth_eq (hbits : 1 ≤ bits) (h : m.rangeMishap? bits signed = none) :
    ∃ range, Interval.ofWidth bits signed = .ok range ∧
      ofWidth m (.int bits) (.bool signed) = .ok (ofInterval range) := by
  obtain ⟨range, hrange⟩ := Interval.exists_ofWidth hbits signed
  refine ⟨range, hrange, ?_⟩
  rw [ofWidth_eq h, hrange]
  rfl

/-- **Inferred widths are minimal, and invert the ranges of widths.** An interval gets a signed
width exactly when it has a negative element. The width represents every element, and no width of
the same sign with fewer bits does. The range of any width has this width. All this holds of the
ranges that can be calculated; the machine comes to a mishap for every other width. -/
theorem width_minimal (m : Machine) (a : Interval) {bits : Int} (hbits : 1 ≤ bits)
    (signed : Bool) :
    (ofInterval a).width = .ok a.width ∧ (a.width.signed = true ↔ a.lo < 0) ∧
    (m.rangeMishap? a.width.bits a.width.signed = none →
      ∃ range, ofWidth m (.int a.width.bits) (.bool a.width.signed) = .ok range ∧
        (ofInterval a).leq range = .ok true) ∧
    (∀ range, ofWidth m (.int bits) (.bool a.width.signed) = .ok range →
      (ofInterval a).leq range = .ok true → (a.width.bits : Int) ≤ bits) ∧
    (m.rangeMishap? bits signed = none →
      ∃ range, ofWidth m (.int bits) (.bool signed) = .ok range ∧
        range.width = .ok ⟨bits.toNat, signed⟩) ∧
    ∀ mishap, ofWidth m (.int bits) (.bool signed) = .error mishap ↔
      m.rangeMishap? bits signed = some mishap := by
  refine ⟨width_ofInterval a, a.signed_width_iff, ?_, ?_, ?_, ?_⟩
  · intro hnone
    have hone : (1 : Int) ≤ a.width.bits := Int.ofNat_le.mpr a.one_le_bits_width
    obtain ⟨range, hrange, heq⟩ := exists_ofWidth_eq hone hnone
    refine ⟨ofInterval range, heq, ?_⟩
    rw [leq_ofInterval, (Interval.leq_ofWidth_iff hone hrange).mpr le_rfl]
  · intro extent hextent hleq
    cases hnone : m.rangeMishap? bits a.width.signed with
    | some mishap =>
      rw [ofWidth_eq_error hnone] at hextent
      cases hextent
    | none =>
      obtain ⟨range, hrange, heq⟩ := exists_ofWidth_eq hbits hnone
      obtain rfl : ofInterval range = extent := Except.ok.inj (heq.symm.trans hextent)
      rw [leq_ofInterval] at hleq
      exact (Interval.leq_ofWidth_iff hbits hrange).mp (Except.ok.inj hleq)
  · intro hnone
    obtain ⟨range, hrange, heq⟩ := exists_ofWidth_eq hbits hnone
    refine ⟨ofInterval range, heq, ?_⟩
    rw [width_ofInterval, Interval.width_ofWidth hbits hrange]
  · intro mishap
    refine ⟨fun herror ↦ ?_, ofWidth_eq_error⟩
    cases hsome : m.rangeMishap? bits signed with
    | some found =>
      have heq := (ofWidth_eq_error hsome).symm.trans herror
      exact congrArg some (Except.error.inj heq)
    | none =>
      obtain ⟨range, -, heq⟩ := exists_ofWidth_eq hbits hsome
      rw [heq] at herror
      cases herror

/-- The negative octets need the sign and all eight bits, although the largest of them is only minus
one. -/
theorem width_negative_octets : (⟨-128, -1, by decide⟩ : Interval).width = ⟨8, true⟩ ∧
    (∃ range, ofWidth .roomy (.int 7) (.bool true) = .ok range ∧
      ¬ (ofInterval ⟨-128, -1, by decide⟩).leq range = .ok true) ∧
    ∃ range, ofWidth .roomy (.int 7) (.bool false) = .ok range ∧
      range.width = .ok ⟨7, false⟩ := by
  have hwidth : (⟨-128, -1, by decide⟩ : Interval).width = ⟨8, true⟩ := by decide
  obtain ⟨-, -, -, hleast, hinverse, -⟩ :=
    width_minimal .roomy ⟨-128, -1, by decide⟩ (show (1 : Int) ≤ 7 by decide) false
  rw [hwidth] at hleast
  refine ⟨hwidth, ⟨_, rfl, fun hleq ↦ ?_⟩, hinverse (by decide)⟩
  exact absurd (hleast _ rfl hleq) (by decide)

/-- No machine calculates the range of a width that cannot be counted. -/
theorem ofWidth_uncounted : (1 : Int) ≤ 10 ^ 25 ∧
    ∀ m, ofWidth m (.int (10 ^ 25)) (.bool false) = .error .tooManyDigits :=
  ⟨by decide, fun _ ↦ ofWidth_eq_error (Machine.powerMishap?_of_countable_lt (by decide))⟩

end Extent

end Datapath
