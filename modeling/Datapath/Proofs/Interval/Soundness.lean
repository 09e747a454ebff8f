import Datapath.Interval
import Mathlib.Algebra.Order.Ring.Int
import Mathlib.Data.Set.Operations
import Mathlib.Order.Interval.Set.UnorderedInterval
import Mathlib.Tactic.Linarith

/-!
# Soundness of the interval operations

An interval stands for the integers in it, so `n ∈ a` is a proposition about integers, and each
operation is judged by the elements of its result.

## Corners

A product is monotone or antitone in each factor, and so is a truncated quotient, as long as the
divisor keeps its sign. So the value at a point lies between the values at the ends, in one order or
the other: it is an element of an unordered interval `Set.uIcc`. Two such steps lead to the corners.
-/

namespace Datapath

/-- The integers with a number of bits. -/
def BitWidth.Represents (w : BitWidth) (n : Int) : Prop :=
  if w.signed then -2 ^ (w.bits - 1) ≤ n ∧ n < 2 ^ (w.bits - 1) else 0 ≤ n ∧ n < 2 ^ w.bits

theorem represents_iff_of_bitRange {bits : Int} {signed : Bool} {lo hi : Int}
    (h : bitRange bits signed = .ok (lo, hi)) (n : Int) :
    BitWidth.Represents ⟨bits.toNat, signed⟩ n ↔ lo ≤ n ∧ n ≤ hi := by
  cases signed with
  | false =>
    simp only [bitRange, Int.shiftLeft_eq, one_mul, Bool.false_eq_true, if_false] at h
    simp only [BitWidth.Represents, Bool.false_eq_true, if_false]
    split at h
    case isTrue => cases h
    case isFalse =>
      cases h
      omega
  | true =>
    simp only [bitRange, Int.shiftLeft_eq, one_mul, if_true] at h
    simp only [BitWidth.Represents, if_true]
    split at h
    case isTrue => cases h
    case isFalse =>
      cases h
      have hbits : bits.toNat - 1 = (bits - 1).toNat := by omega
      rw [hbits]
      omega

theorem exists_bitRange {bits : Int} (h : 1 ≤ bits) (signed : Bool) :
    ∃ lo hi, bitRange bits signed = .ok (lo, hi) ∧ lo ≤ hi := by
  have hpower : ∀ exponent : Nat, 0 < (2 : Int) ^ exponent := fun _ ↦ Int.pow_pos (by decide)
  cases signed with
  | false =>
    have hnonneg : ¬ bits < 0 := by omega
    refine ⟨0, 2 ^ bits.toNat - 1, by simp [bitRange, Int.shiftLeft_eq, hnonneg], ?_⟩
    have := hpower bits.toNat
    omega
  | true =>
    have hnonneg : ¬ bits - 1 < 0 := by omega
    refine ⟨-2 ^ (bits - 1).toNat, 2 ^ (bits - 1).toNat - 1,
      by simp [bitRange, Int.shiftLeft_eq, hnonneg], ?_⟩
    have := hpower (bits - 1).toNat
    omega

/-- An integer fits a number of bits when it has no more binary digits. -/
theorem bitLength_toNat_le_iff {n : Int} {bits : Nat} :
    bitLength n.toNat ≤ bits ↔ n < 2 ^ bits := by
  have hcast : n < 2 ^ bits ↔ n.toNat < 2 ^ bits := by
    rw [Int.toNat_lt' (Nat.two_pow_pos bits), Nat.cast_pow, Nat.cast_ofNat]
  rw [hcast, bitLength]
  split
  case isTrue hzero => simp [hzero]
  case isFalse hpos => rw [Nat.succ_le_iff, Nat.log2_lt hpos]

namespace Interval

variable {a b c : Interval} {n x y : Int}

/-! ## Elements -/

instance : Membership Int Interval := ⟨fun a n ↦ a.lo ≤ n ∧ n ≤ a.hi⟩

theorem mem_iff : n ∈ a ↔ a.lo ≤ n ∧ n ≤ a.hi := Iff.rfl

theorem lo_mem (a : Interval) : a.lo ∈ a := ⟨le_rfl, a.lo_le_hi⟩

theorem hi_mem (a : Interval) : a.hi ∈ a := ⟨a.lo_le_hi, le_rfl⟩

theorem contains_iff_mem : a.contains n = true ↔ n ∈ a := by
  rw [contains, Bool.and_eq_true, decide_eq_true_eq, decide_eq_true_eq, mem_iff]

theorem leq_iff : a.leq b = true ↔ b.lo ≤ a.lo ∧ a.hi ≤ b.hi := by
  rw [leq, Bool.and_eq_true, decide_eq_true_eq, decide_eq_true_eq]

theorem mem_of_leq (h : a.leq b = true) (hn : n ∈ a) : n ∈ b := by
  rw [leq_iff] at h
  rw [mem_iff] at hn ⊢
  omega

theorem leq_iff_forall_mem : a.leq b = true ↔ ∀ n ∈ a, n ∈ b :=
  ⟨fun h _ ↦ mem_of_leq h, fun h ↦ leq_iff.mpr ⟨(h a.lo a.lo_mem).1, (h a.hi a.hi_mem).2⟩⟩

theorem leq_refl (a : Interval) : a.leq a = true := leq_iff.mpr ⟨le_rfl, le_rfl⟩

theorem leq_trans (hab : a.leq b = true) (hbc : b.leq c = true) : a.leq c = true := by
  rw [leq_iff] at *
  omega

theorem leq_antisymm (hab : a.leq b = true) (hba : b.leq a = true) : a = b := by
  rw [leq_iff] at hab hba
  cases a
  cases b
  rw [mk.injEq]
  exact ⟨le_antisymm hba.1 hab.1, le_antisymm hab.2 hba.2⟩

theorem leq_join_left (a b : Interval) : a.leq (a.join b) = true := by
  simp only [leq_iff, join]
  omega

theorem leq_join_right (a b : Interval) : b.leq (a.join b) = true := by
  simp only [leq_iff, join]
  omega

theorem join_leq (ha : a.leq c = true) (hb : b.leq c = true) : (a.join b).leq c = true := by
  simp only [leq_iff, join] at *
  omega

theorem leq_widen_left (a b : Interval) (thresholds : List Int) :
    a.leq (a.widen b thresholds) = true := by
  have hlo := widenLo_le a b thresholds
  have hhi := le_widenHi a b thresholds
  simp only [leq_iff, widen]
  omega

theorem leq_widen_right (a b : Interval) (thresholds : List Int) :
    b.leq (a.widen b thresholds) = true := by
  have hlo := widenLo_le a b thresholds
  have hhi := le_widenHi a b thresholds
  simp only [leq_iff, widen]
  omega

theorem mem_point_iff : n ∈ point x ↔ n = x := by
  simp only [mem_iff, point]
  omega

theorem mem_make_iff {lo hi : Int} (h : make lo hi = .ok a) : n ∈ a ↔ lo ≤ n ∧ n ≤ hi := by
  rw [make] at h
  split at h
  case isFalse => cases h
  case isTrue =>
    cases h
    rfl

theorem mem_ofWidth_iff {bits : Int} {signed : Bool} (h : ofWidth bits signed = .ok a) :
    n ∈ a ↔ BitWidth.Represents ⟨bits.toNat, signed⟩ n := by
  rw [ofWidth] at h
  cases hrange : bitRange bits signed with
  | error cause =>
    rw [hrange] at h
    cases h
  | ok range =>
    rw [hrange] at h
    rw [represents_iff_of_bitRange hrange]
    exact mem_make_iff h

theorem mem_span_iff {m : Int} {ms : List Int} :
    n ∈ span m ms ↔ (∃ p ∈ m :: ms, p ≤ n) ∧ ∃ q ∈ m :: ms, n ≤ q := by
  have hmin : ∀ (ms : List Int) (m : Int), ms.foldl min m ≤ n ↔ ∃ p ∈ m :: ms, p ≤ n := by
    intro ms
    induction ms with
    | nil => simp
    | cons k ks ih =>
      intro m
      rw [List.foldl_cons, ih]
      simp only [List.mem_cons, exists_eq_or_imp, min_le_iff, or_assoc]
  have hmax : ∀ (ms : List Int) (m : Int), n ≤ ms.foldl max m ↔ ∃ q ∈ m :: ms, n ≤ q := by
    intro ms
    induction ms with
    | nil => simp
    | cons k ks ih =>
      intro m
      rw [List.foldl_cons, ih]
      simp only [List.mem_cons, exists_eq_or_imp, le_max_iff, or_assoc]
  rw [mem_iff, span, hmin, hmax]

theorem leq_hull {as : List Interval} (h : hull as = .ok b) (ha : a ∈ as) : a.leq b = true := by
  have hfold : ∀ (as : List Interval) (start : Interval),
      start.leq (as.foldl join start) = true ∧ ∀ a ∈ as, a.leq (as.foldl join start) = true := by
    intro as
    induction as with
    | nil => exact fun start ↦ ⟨leq_refl start, by simp⟩
    | cons d as ih =>
      intro start
      obtain ⟨hstart, hrest⟩ := ih (start.join d)
      rw [List.foldl_cons, List.forall_mem_cons]
      exact ⟨leq_trans (leq_join_left start d) hstart,
        leq_trans (leq_join_right start d) hstart, hrest⟩
  cases as with
  | nil => cases ha
  | cons d as =>
    cases h
    rcases List.mem_cons.mp ha with rfl | ha
    · exact (hfold as a).1
    · exact (hfold as d).2 a ha

/-! ## Arithmetic -/

theorem add_mem (hx : x ∈ a) (hy : y ∈ b) : x + y ∈ a.add b := by
  simp only [mem_iff, add] at *
  omega

theorem sub_mem (hx : x ∈ a) (hy : y ∈ b) : x - y ∈ a.sub b := by
  simp only [mem_iff, sub] at *
  omega

theorem mem_compare (hn : n = 0 ∨ n = 1) : n ∈ a.compare b := by
  simp only [mem_iff, compare, boolean]
  omega

/-- From a point to the ends of a side, and from there to the corners. -/
private theorem exists_corner {v u w p q r s : Int} (hv : v ∈ Set.uIcc u w) (hu : u ∈ Set.uIcc p q)
    (hw : w ∈ Set.uIcc r s) :
    (∃ m ∈ [p, r, q, s], m ≤ v) ∧ ∃ m ∈ [p, r, q, s], v ≤ m := by
  rw [Set.mem_uIcc] at hv hu hw
  simp only [List.mem_cons, List.not_mem_nil, exists_eq_or_imp, false_and, exists_false]
  omega

private theorem mul_mem_uIcc (x : Int) (hy : y ∈ b) : x * y ∈ Set.uIcc (x * b.lo) (x * b.hi) := by
  rw [Set.mem_uIcc]
  rcases le_total 0 x with hx | hx
  · exact Or.inl ⟨mul_le_mul_of_nonneg_left hy.1 hx, mul_le_mul_of_nonneg_left hy.2 hx⟩
  · exact Or.inr ⟨mul_le_mul_of_nonpos_left hy.2 hx, mul_le_mul_of_nonpos_left hy.1 hx⟩

theorem mul_mem (hx : x ∈ a) (hy : y ∈ b) : x * y ∈ a.mul b := by
  have hside : ∀ z : Int, x * z ∈ Set.uIcc (a.lo * z) (a.hi * z) := by
    intro z
    rw [mul_comm x z, mul_comm a.lo z, mul_comm a.hi z]
    exact mul_mem_uIcc z hx
  exact mem_span_iff.mpr (exists_corner (mul_mem_uIcc x hy) (hside b.lo) (hside b.hi))

/-! ## Division -/

/-- The quotients of a nonnegative integer fall as a positive divisor grows. -/
private theorem tdiv_le_tdiv_left {c d : Int} (hx : 0 ≤ x) (hc : 0 < c) (hcd : c ≤ d) :
    x.tdiv d ≤ x.tdiv c := by
  lift x to Nat using hx
  lift c to Nat using hc.le
  lift d to Nat using hc.le.trans hcd
  rw [← Int.ofNat_tdiv, ← Int.ofNat_tdiv, Int.ofNat_le]
  exact Nat.div_le_div_left (Int.ofNat_le.mp hcd) (Int.ofNat_lt.mp hc)

private theorem tdiv_mem_uIcc_of_pos (x : Int) {c d : Int} (hc : 0 < c) (hcy : c ≤ y)
    (hyd : y ≤ d) : x.tdiv y ∈ Set.uIcc (x.tdiv c) (x.tdiv d) := by
  rw [Set.mem_uIcc]
  rcases le_total 0 x with hx | hx
  · exact Or.inr ⟨tdiv_le_tdiv_left hx (by omega) hyd, tdiv_le_tdiv_left hx hc hcy⟩
  · have hupper := tdiv_le_tdiv_left (neg_nonneg.mpr hx) (hc.trans_le hcy) hyd
    have hlower := tdiv_le_tdiv_left (neg_nonneg.mpr hx) hc hcy
    rw [Int.neg_tdiv, Int.neg_tdiv] at hupper hlower
    omega

/-- On each side of zero the quotient lies between those of the extreme divisors. -/
private theorem tdiv_mem_uIcc (x : Int) {c d : Int} (hsign : 0 < c ∨ d < 0) (hcy : c ≤ y)
    (hyd : y ≤ d) : x.tdiv y ∈ Set.uIcc (x.tdiv c) (x.tdiv d) := by
  rcases hsign with hc | hd
  · exact tdiv_mem_uIcc_of_pos x hc hcy hyd
  · -- a change of the sign of the divisor turns the order of the quotients round
    have hneg := tdiv_mem_uIcc_of_pos x (neg_pos.mpr hd) (neg_le_neg hyd) (neg_le_neg hcy)
    rw [Int.tdiv_neg, Int.tdiv_neg, Int.tdiv_neg, Set.mem_uIcc] at hneg
    rw [Set.mem_uIcc]
    omega

private theorem tdiv_dividend_mem_uIcc (hx : x ∈ a) (z : Int) :
    x.tdiv z ∈ Set.uIcc (a.lo.tdiv z) (a.hi.tdiv z) := by
  rw [Set.mem_uIcc]
  rcases lt_trichotomy z 0 with hz | rfl | hz
  · have hlower := Int.tdiv_le_tdiv (neg_pos.mpr hz) hx.1
    have hupper := Int.tdiv_le_tdiv (neg_pos.mpr hz) hx.2
    rw [Int.tdiv_neg, Int.tdiv_neg] at hlower hupper
    omega
  · simp
  · exact Or.inl ⟨Int.tdiv_le_tdiv hz hx.1, Int.tdiv_le_tdiv hz hx.2⟩

/-- A divisor other than zero lies between the extremes of a part, which have its sign. -/
private theorem exists_divisorPart (hy : y ∈ b) (hne : y ≠ 0) :
    ∃ c d, (c, d) ∈ b.divisorParts ∧ (0 < c ∨ d < 0) ∧ c ≤ y ∧ y ≤ d := by
  rw [mem_iff] at hy
  rcases lt_or_gt_of_ne hne with hneg | hpos
  · refine ⟨b.lo, min b.hi (-1), ?_, by omega, by omega, by omega⟩
    rw [divisorParts, if_pos (by omega)]
    exact List.mem_append_left _ List.mem_cons_self
  · refine ⟨max b.lo 1, b.hi, ?_, by omega, by omega, by omega⟩
    rw [divisorParts, if_pos (show 0 < b.hi by omega)]
    exact List.mem_append_right _ List.mem_cons_self

private theorem mem_div_of_between {p q : Int} (hp : p ∈ quotients a b) (hpn : p ≤ n)
    (hq : q ∈ quotients a b) (hnq : n ≤ q) : n ∈ a.div b := by
  rw [div]
  cases hquotients : quotients a b with
  | nil =>
    rw [hquotients] at hp
    cases hp
  | cons r rs =>
    rw [hquotients] at hp hq
    exact mem_span_iff.mpr ⟨⟨p, hp, hpn⟩, ⟨q, hq, hnq⟩⟩

theorem tdiv_mem (hx : x ∈ a) (hy : y ∈ b) : x.tdiv y ∈ a.div b := by
  by_cases hzero : y = 0
  · have hmem : (0 : Int) ∈ quotients a b := by
      rw [quotients, if_pos (contains_iff_mem.mpr (hzero ▸ hy))]
      exact List.mem_append_right _ List.mem_cons_self
    rw [hzero, Int.tdiv_zero]
    exact mem_div_of_between hmem le_rfl hmem le_rfl
  · obtain ⟨c, d, hpart, hsign, hcy, hyd⟩ := exists_divisorPart hy hzero
    have hcorners : ∀ q ∈ [a.lo.tdiv c, a.lo.tdiv d, a.hi.tdiv c, a.hi.tdiv d],
        q ∈ quotients a b := fun q hq ↦
      List.mem_append_left _ (List.mem_flatMap.mpr ⟨(c, d), hpart, hq⟩)
    obtain ⟨⟨p, hp, hpx⟩, q, hq, hxq⟩ := exists_corner (tdiv_mem_uIcc x hsign hcy hyd)
      (tdiv_dividend_mem_uIcc hx c) (tdiv_dividend_mem_uIcc hx d)
    exact mem_div_of_between (hcorners p hp) hpx (hcorners q hq) hxq

/-! ## Widths -/

theorem represents_width (hn : n ∈ a) : a.width.Represents n := by
  rw [mem_iff] at hn
  rw [width]
  split
  case isTrue hnonneg =>
    have hhi := bitLength_toNat_le_iff.mp (le_max_right 1 (bitLength a.hi.toNat))
    simp only [BitWidth.Represents, Bool.false_eq_true, if_false]
    omega
  case isFalse hneg =>
    have hhi := bitLength_toNat_le_iff.mp
      (le_max_right (bitLength (-a.lo - 1).toNat) (bitLength a.hi.toNat))
    have hlo := bitLength_toNat_le_iff.mp
      (le_max_left (bitLength (-a.lo - 1).toNat) (bitLength a.hi.toNat))
    simp only [BitWidth.Represents, if_true, Nat.add_sub_cancel]
    omega

/-- The width of an interval has no more bits than any width that represents its elements. The two
need not agree in their signs: nonnegative values of a signed width are inferred unsigned. -/
theorem bits_width_le {bits : Nat} {signed : Bool} (hbits : 1 ≤ bits)
    (h : ∀ n ∈ a, BitWidth.Represents ⟨bits, signed⟩ n) : a.width.bits ≤ bits := by
  have hle := a.lo_le_hi
  have hlo := h a.lo a.lo_mem
  have hhi := h a.hi a.hi_mem
  rw [width]
  cases signed with
  | false =>
    simp only [BitWidth.Represents, Bool.false_eq_true, if_false] at hlo hhi
    rw [if_pos hlo.1]
    exact max_le hbits (bitLength_toNat_le_iff.mpr hhi.2)
  | true =>
    simp only [BitWidth.Represents, if_true] at hlo hhi
    -- one of the bits is the sign, which a nonnegative interval does without
    have hlow : bitLength (-a.lo - 1).toNat ≤ bits - 1 := bitLength_toNat_le_iff.mpr (by omega)
    have hhigh : bitLength a.hi.toNat ≤ bits - 1 := bitLength_toNat_le_iff.mpr hhi.2
    split
    · exact max_le hbits (hhigh.trans (Nat.sub_le bits 1))
    · dsimp only
      omega

end Interval

end Datapath
