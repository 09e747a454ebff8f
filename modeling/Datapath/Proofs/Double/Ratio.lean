import Datapath.Double.Decimal
import Mathlib.Algebra.Order.Field.Power
import Mathlib.Data.Int.Log
import Mathlib.Data.Rat.Floor
import Mathlib.Tactic.Linarith
import Mathlib.Tactic.Positivity
import Mathlib.Tactic.Ring

/-!
# Exact ratios

Doubles and decimals are chosen by integer arithmetic on a numerator and a denominator. What is
calculated in this way is said here about the quotient of the two: a shift divides by a power of the
base, a guessed logarithm is the logarithm, and a rounded division gives the nearest natural number.
-/

namespace Datapath

namespace Double

variable {base num den : ℕ} {e : ℤ}

/-! ## Shifts and logarithms -/

theorem shift_den_pos (hbase : 0 < base) (hden : 0 < den) (num : ℕ) (e : ℤ) :
    0 < (shift base num den e).2 := by
  rw [shift]
  split
  · exact Nat.mul_pos hden (Nat.pow_pos hbase)
  · exact hden

theorem shift_div (hbase : 0 < base) (num den : ℕ) (e : ℤ) :
    ((shift base num den e).1 : ℚ) / (shift base num den e).2 = num / den / (base : ℚ) ^ e := by
  have hne : (base : ℚ) ≠ 0 := Nat.cast_ne_zero.mpr hbase.ne'
  rw [shift]
  split
  case isTrue he =>
    lift e to ℕ using he
    simp [Nat.pow_eq, div_div]
  case isFalse he =>
    obtain ⟨k, rfl⟩ : ∃ k : ℕ, e = -k := ⟨(-e).toNat, by omega⟩
    simp [Nat.pow_eq, div_mul_eq_mul_div]

theorem powLe_iff (hbase : 0 < base) (hden : 0 < den) :
    powLe base num den e = true ↔ (base : ℚ) ^ e ≤ num / den := by
  have hden' : (0 : ℚ) < (shift base num den e).2 :=
    Nat.cast_pos.mpr (shift_den_pos hbase hden num e)
  have hpow : (0 : ℚ) < (base : ℚ) ^ e := zpow_pos (Nat.cast_pos.mpr hbase) e
  rw [← one_le_div hpow, ← shift_div hbase, one_le_div hden', Nat.cast_le, powLe, decide_eq_true_eq]

/-- A guess from the logarithms of the two parts is right or one too great. -/
theorem log_of_guess (hbase : 1 < base) (hnum : 0 < num) (hden : 0 < den) {a b : ℕ}
    (hnum₁ : base ^ a ≤ num) (hnum₂ : num < base ^ (a + 1)) (hden₁ : base ^ b ≤ den)
    (hden₂ : den < base ^ (b + 1)) :
    (if powLe base num den (a - b) then (a - b : ℤ) else a - b - 1) =
      Int.log base (num / den : ℚ) := by
  have hpos : (0 : ℚ) < num / den := by positivity
  have hbase₀ : (base : ℚ) ≠ 0 := by positivity
  have habove : (num / den : ℚ) < (base : ℚ) ^ (a - b + 1 : ℤ) := by
    rw [show (a - b + 1 : ℤ) = (a + 1 : ℕ) - b by push_cast; ring, zpow_sub₀ hbase₀, zpow_natCast,
      zpow_natCast]
    exact div_lt_div₀ (by exact_mod_cast hnum₂) (by exact_mod_cast hden₁) (by positivity)
      (by positivity)
  have hbelow : (base : ℚ) ^ (a - b - 1 : ℤ) ≤ num / den := by
    rw [show (a - b - 1 : ℤ) = a - (b + 1 : ℕ) by push_cast; ring, zpow_sub₀ hbase₀, zpow_natCast,
      zpow_natCast]
    exact div_le_div₀ (by positivity) (by exact_mod_cast hnum₁) (by positivity)
      (by exact_mod_cast hden₂.le)
  rw [Int.lt_zpow_iff_log_lt hbase hpos] at habove
  rw [Int.zpow_le_iff_le_log hbase hpos] at hbelow
  split
  case isTrue h =>
    rw [powLe_iff (by omega) hden, Int.zpow_le_iff_le_log hbase hpos] at h
    omega
  case isFalse h =>
    rw [powLe_iff (by omega) hden, not_le, Int.lt_zpow_iff_log_lt hbase hpos] at h
    omega

theorem floorLog2_eq (hnum : 0 < num) (hden : 0 < den) :
    floorLog2 num den = Int.log 2 (num / den : ℚ) :=
  log_of_guess (by decide) hnum hden (Nat.log2_self_le hnum.ne') Nat.lt_log2_self
    (Nat.log2_self_le hden.ne') Nat.lt_log2_self

/-! ## Rounding -/

theorem abs_div_sub {p : ℚ} (hp : 0 < p) (q n : ℚ) : |q / p - n| = |q - n * p| / p := by
  rw [← abs_of_pos hp, ← abs_div, abs_of_pos hp, sub_div, mul_div_cancel_right₀ _ hp.ne']

/-- A natural number is nearest to a rational; halfway between two, the even one is. -/
def Nearest (n : ℕ) (q : ℚ) : Prop := |q - n| ≤ 1 / 2 ∧ (n % 2 = 1 → |q - n| < 1 / 2)

theorem roundDiv_nearest (hden : 0 < den) (num : ℕ) : Nearest (roundDiv num den) (num / den) := by
  have hpos : (0 : ℚ) < den := Nat.cast_pos.mpr hden
  have hsplit : (num / den : ℚ) = (num / den : ℕ) + (num % den : ℕ) / den := by
    rw [div_eq_iff hpos.ne', add_mul, div_mul_cancel₀ _ hpos.ne']
    exact_mod_cast (Nat.div_add_mod' num den).symm
  have hnonneg : (0 : ℚ) ≤ (num % den : ℕ) / den := by positivity
  have hrest : ((num % den : ℕ) : ℚ) / den < 1 := by
    rw [div_lt_one hpos, Nat.cast_lt]
    exact Nat.mod_lt num hden
  have hless : 2 * (num % den) < den ↔ ((num % den : ℕ) : ℚ) / den < 1 / 2 := by
    rw [div_lt_div_iff₀ hpos two_pos, ← Nat.cast_lt (α := ℚ)]
    push_cast
    constructor <;> intro h <;> linarith
  have heq : 2 * (num % den) = den ↔ ((num % den : ℕ) : ℚ) / den = 1 / 2 := by
    rw [div_eq_div_iff hpos.ne' two_ne_zero, ← Nat.cast_inj (R := ℚ)]
    push_cast
    constructor <;> intro h <;> linarith
  rw [Nearest, hsplit, roundDiv]
  simp only [Bool.or_eq_true, decide_eq_true_eq, Bool.and_eq_true, beq_iff_eq, hless, heq]
  generalize ((num % den : ℕ) : ℚ) / den = r at *
  generalize num / den = k
  split
  case isTrue h =>
    rw [add_sub_cancel_left, abs_of_nonneg hnonneg]
    refine ⟨?_, fun hodd ↦ h.resolve_right (by omega)⟩
    rcases h with h | h <;> linarith
  case isFalse h =>
    rw [not_or, not_and, not_lt] at h
    rw [Nat.cast_add, Nat.cast_one, add_sub_add_left_eq_sub, abs_sub_comm,
      abs_of_pos (sub_pos.mpr hrest)]
    refine ⟨by linarith, fun heven ↦ ?_⟩
    have hne : r ≠ 1 / 2 := fun hr ↦ h.2 hr (by omega)
    have hlt := lt_of_le_of_ne h.1 hne.symm
    linarith

end Double

namespace Decimal

variable {num den : ℕ}

theorem pow_length_le {n : ℕ} (hn : 0 < n) : 10 ^ (length n - 1) ≤ n ∧ n < 10 ^ length n := by
  have hpos : 0 < length n := Nat.length_toDigits_pos
  constructor
  · by_contra hlt
    rcases Nat.eq_zero_or_pos (length n - 1) with hzero | hsucc
    · rw [hzero] at hlt
      omega
    · have hle := (Nat.length_toDigits_le_iff (by decide) hsucc).mpr (not_le.mp hlt)
      rw [← length] at hle
      omega
  · exact (Nat.length_toDigits_le_iff (by decide) hpos).mp le_rfl

theorem floorLog10_eq (hnum : 0 < num) (hden : 0 < den) :
    floorLog10 num den = Int.log 10 (num / den : ℚ) := by
  obtain ⟨a, ha⟩ : ∃ a, length num = a + 1 := Nat.exists_eq_add_one.mpr Nat.length_toDigits_pos
  obtain ⟨b, hb⟩ : ∃ b, length den = b + 1 := Nat.exists_eq_add_one.mpr Nat.length_toDigits_pos
  obtain ⟨hnum₁, hnum₂⟩ := pow_length_le hnum
  obtain ⟨hden₁, hden₂⟩ := pow_length_le hden
  rw [ha] at hnum₁ hnum₂
  rw [hb] at hden₁ hden₂
  have hguess : (length num : ℤ) - length den = a - b := by omega
  rw [floorLog10, hguess]
  exact Double.log_of_guess (by decide) hnum hden hnum₁ hnum₂ hden₁ hden₂

end Decimal

end Datapath
