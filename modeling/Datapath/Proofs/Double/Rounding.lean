import Datapath.Proofs.Double.Ratio

/-!
# The nearest double

Each double has a reach: the rationals that are rounded to it. The ends of a reach are halfway to
the neighbours and belong to the double with the even significand; below a power of two the
neighbours are closer together, and so the reach is shorter there.

That a ratio is in the reach of the double it is rounded to says all there is to know about the
rounding. How far the two are apart, which ratios are rounded to zero and which to no double at all
follow from the ends of the reaches.
-/

namespace Datapath.Double

variable {s num den : ℕ} {e : ℤ} {a b c q : ℚ} {negative : Bool}

/-! ## Reaches -/

theorem two_zpow_pos (e : ℤ) : (0 : ℚ) < 2 ^ e := zpow_pos two_pos e

/-- A significand and an exponent as a double has them. -/
structure Canonical (s : ℕ) (e : ℤ) : Prop where
  lt : s < 2 ^ 53
  /-- It has all of them, unless the exponent is the least one. -/
  full : 2 ^ 52 ≤ s ∨ e = minExponent
  /-- The exponent is not below the least one. -/
  min_le : minExponent ≤ e
  /-- Nor is it above the greatest one. -/
  le_max : e ≤ maxExponent

/-- A rational is within the reach of a double: no other double is nearer, and if another is as near
then the significand is even. -/
def InReach (s : ℕ) (e : ℤ) (q : ℚ) : Prop :=
  if s % 2 = 0 then
    (Decimal.reach s e).1 * (2 : ℚ) ^ e ≤ 4 * q ∧ 4 * q ≤ (Decimal.reach s e).2 * (2 : ℚ) ^ e
  else (Decimal.reach s e).1 * (2 : ℚ) ^ e < 4 * q ∧ 4 * q < (Decimal.reach s e).2 * (2 : ℚ) ^ e

theorem le_reach_fst (s : ℕ) (e : ℤ) : (4 * s - 2 : ℚ) ≤ (Decimal.reach s e).1 := by
  have hle : 4 * s ≤ (Decimal.reach s e).1 + 2 := by
    rw [Decimal.reach]
    dsimp only
    split <;> omega
  have hcast : ((4 * s : ℕ) : ℚ) ≤ ((Decimal.reach s e).1 + 2 : ℕ) := Nat.cast_le.mpr hle
  push_cast at hcast
  linarith

theorem reach_fst_le (hs : 0 < s) (e : ℤ) : ((Decimal.reach s e).1 : ℚ) ≤ 4 * s - 1 := by
  have hle : (Decimal.reach s e).1 + 1 ≤ 4 * s := by
    rw [Decimal.reach]
    dsimp only
    split <;> omega
  have hcast : (((Decimal.reach s e).1 + 1 : ℕ) : ℚ) ≤ (4 * s : ℕ) := Nat.cast_le.mpr hle
  push_cast at hcast
  linarith

theorem reach_snd (s : ℕ) (e : ℤ) : ((Decimal.reach s e).2 : ℚ) = 4 * s + 2 := by
  simp [Decimal.reach]

namespace InReach

theorem bounds (h : InReach s e q) :
    (Decimal.reach s e).1 * (2 : ℚ) ^ e ≤ 4 * q ∧ 4 * q ≤ (Decimal.reach s e).2 * (2 : ℚ) ^ e := by
  rw [InReach] at h
  split at h
  · exact h
  · exact ⟨h.1.le, h.2.le⟩

private theorem of_lt (h₁ : (Decimal.reach s e).1 * (2 : ℚ) ^ e < 4 * q)
    (h₂ : 4 * q < (Decimal.reach s e).2 * (2 : ℚ) ^ e) : InReach s e q := by
  rw [InReach]
  split
  · exact ⟨h₁.le, h₂.le⟩
  · exact ⟨h₁, h₂⟩

theorem abs_sub_le (h : InReach s e q) : |q - s * 2 ^ e| ≤ 2 ^ e / 2 := by
  obtain ⟨hlow, hhigh⟩ := h.bounds
  have hpow := two_zpow_pos e
  rw [reach_snd] at hhigh
  have hlow := (mul_le_mul_of_nonneg_right (le_reach_fst s e) hpow.le).trans hlow
  rw [abs_le]
  constructor <;> linarith

/-- What is between two rationals in reach is in reach. -/
theorem convex (ha : InReach s e a) (hb : InReach s e b) (hac : a ≤ c) (hcb : c ≤ b) :
    InReach s e c := by
  rw [InReach] at ha hb ⊢
  split at ha
  case isTrue heven =>
    rw [if_pos heven] at hb ⊢
    exact ⟨by linarith [ha.1], by linarith [hb.2]⟩
  case isFalse hodd =>
    rw [if_neg hodd] at hb ⊢
    exact ⟨by linarith [ha.1], by linarith [hb.2]⟩

theorem of_abs_lt (hs : 0 < s) (h : |q - s * 2 ^ e| < 2 ^ e / 4) : InReach s e q := by
  have hpow := two_zpow_pos e
  rw [abs_lt] at h
  have hlow := mul_le_mul_of_nonneg_right (reach_fst_le hs e) hpow.le
  refine of_lt ?_ ?_
  · linarith [h.1]
  · rw [reach_snd]
    linarith [h.2]

theorem self (hs : 0 < s) (e : ℤ) : InReach s e (s * 2 ^ e) := by
  refine of_abs_lt hs ?_
  rw [sub_self, abs_zero]
  linarith [two_zpow_pos e]

/-- The double whose significand is nearest in units of its last place has a rational in its reach.
Below a power of two the reach is shorter, so the rational must not be below it. -/
theorem of_nearest (hq : 0 ≤ q) (h : Nearest s (q / 2 ^ e))
    (hfull : s = 2 ^ 52 → minExponent < e → s * (2 : ℚ) ^ e ≤ q) : InReach s e q := by
  have hpow := two_zpow_pos e
  obtain ⟨hle, hlt⟩ := h
  rw [abs_div_sub hpow, div_le_iff₀ hpow, abs_le] at hle
  rw [abs_div_sub hpow, div_lt_iff₀ hpow, abs_lt] at hlt
  have hlow : (Decimal.reach s e).1 * (2 : ℚ) ^ e ≤ 4 * q ∧
      (s % 2 = 1 → (Decimal.reach s e).1 * (2 : ℚ) ^ e < 4 * q) := by
    by_cases hpower : s = 2 ^ 52 ∧ minExponent < e
    · have hs : 0 < s := by omega
      have hreach := mul_le_mul_of_nonneg_right (reach_fst_le hs e) hpow.le
      have hbelow := hfull hpower.1 hpower.2
      exact ⟨by linarith, by omega⟩
    · have hreach : (Decimal.reach s e).1 = 4 * s - 2 := by
        rw [Decimal.reach]
        simp only [Bool.and_eq_true, decide_eq_true_eq]
        rw [if_neg (by simpa using hpower)]
      rcases Nat.eq_zero_or_pos s with rfl | hs
      · rw [hreach]
        simpa using hq
      · rw [hreach, Nat.cast_sub (by omega)]
        push_cast
        exact ⟨by linarith [hle.1], fun hodd ↦ by linarith [(hlt hodd).1]⟩
  rw [InReach, reach_snd]
  split
  case isTrue heven => exact ⟨hlow.1, by linarith [hle.2]⟩
  case isFalse hodd =>
    have hodd : s % 2 = 1 := Nat.mod_two_ne_zero.mp hodd
    exact ⟨hlow.2 hodd, by linarith [(hlt hodd).2]⟩

end InReach

/-! ## The nearest double -/

/-- Where rounding leaves the doubles: halfway from the greatest one to the next power of two. -/
def limit : ℚ := (2 ^ 53 - 1 / 2) * 2 ^ maxExponent

private theorem zpow_log_le (hq : 0 < q) : (2 : ℚ) ^ Int.log 2 q ≤ q := by
  exact_mod_cast Int.zpow_log_le_self (b := 2) (by decide) hq

private theorem lt_zpow_log (q : ℚ) : q < (2 : ℚ) ^ (Int.log 2 q + 1) := by
  exact_mod_cast Int.lt_zpow_succ_log_self (b := 2) (by decide) q

/-- In units of the last place a rational has at most 53 bits before the point, and exactly as many
unless the exponent is the least one. -/
theorem scaled_bounds (hq : 0 < q) (he : e = max minExponent (Int.log 2 q - 52)) :
    q < 2 ^ 53 * 2 ^ e ∧ (minExponent < e → 2 ^ 52 * 2 ^ e ≤ q) := by
  constructor
  · calc q < 2 ^ (Int.log 2 q + 1) := lt_zpow_log q
      _ ≤ 2 ^ (53 + e) := zpow_le_zpow_right₀ one_le_two (by omega)
      _ = 2 ^ 53 * 2 ^ e := by rw [zpow_add₀ two_ne_zero]; rfl
  · intro hmin
    calc (2 : ℚ) ^ 52 * 2 ^ e = 2 ^ (52 + e) := by rw [zpow_add₀ two_ne_zero]; rfl
      _ ≤ 2 ^ Int.log 2 q := zpow_le_zpow_right₀ one_le_two (by omega)
      _ ≤ q := zpow_log_le hq

theorem limit_le (h : maxExponent ≤ e) (hq : (2 ^ 53 - 1 / 2) * 2 ^ e ≤ q) : limit ≤ q := by
  calc limit = (2 ^ 53 - 1 / 2) * 2 ^ maxExponent := rfl
    _ ≤ (2 ^ 53 - 1 / 2) * 2 ^ e :=
      mul_le_mul_of_nonneg_left (zpow_le_zpow_right₀ one_le_two h) (by norm_num)
    _ ≤ q := hq

/-- A rational that is rounded up to a power of two is in the shorter half of its reach. -/
theorem InReach.of_carry (hlow : (2 ^ 53 - 1 / 2) * 2 ^ e ≤ q) (hhigh : q < 2 ^ 53 * 2 ^ e) :
    InReach (2 ^ 52) (e + 1) q := by
  have hpow := two_zpow_pos e
  have hreach := mul_le_mul_of_nonneg_right (reach_fst_le (s := 2 ^ 52) (by decide) (e + 1))
    (two_zpow_pos (e + 1)).le
  rw [InReach, if_pos (by decide), reach_snd]
  rw [zpow_add_one₀ two_ne_zero] at hreach ⊢
  push_cast at hreach ⊢
  constructor <;> linarith

/-- The double that a ratio is rounded to has it in its reach. Only a ratio beyond the limit has
none. -/
theorem ofRatio_spec (hnum : 0 < num) (hden : 0 < den) (negative : Bool) :
    (∃ s e, ofRatio negative num den = .finite negative s e ∧ Canonical s e ∧
      InReach s e (num / den)) ∨
    ofRatio negative num den = .infinite negative ∧ limit ≤ num / den := by
  have hq : (0 : ℚ) < num / den := by positivity
  obtain ⟨e, he⟩ : ∃ e, e = max minExponent (floorLog2 num den - 52) := ⟨_, rfl⟩
  have hmin : minExponent ≤ e := by omega
  have hnearest := roundDiv_nearest (shift_den_pos two_pos hden num e) (shift 2 num den e).1
  rw [shift_div two_pos, Nat.cast_two] at hnearest
  rw [ofRatio, if_neg hnum.ne', ← he]
  rw [floorLog2_eq hnum hden] at he
  obtain ⟨hlt, hge⟩ := scaled_bounds hq he
  dsimp only
  generalize roundDiv (shift 2 num den e).1 (shift 2 num den e).2 = s at hnearest
  generalize (num / den : ℚ) = q at *
  have hpow := two_zpow_pos e
  obtain ⟨hlow, hhigh⟩ := abs_le.mp hnearest.1
  rw [neg_le_sub_iff_le_add, ← sub_le_iff_le_add, le_div_iff₀ hpow] at hlow
  rw [sub_le_iff_le_add, div_le_iff₀ hpow] at hhigh
  have hfull : minExponent < e → 2 ^ 52 ≤ s := by
    intro h
    have hle := le_of_mul_le_mul_right ((hge h).trans hhigh) hpow
    have hlt : (2 ^ 52 : ℚ) < s + 1 := by linarith
    exact Nat.lt_succ_iff.mp (by exact_mod_cast hlt)
  rw [show (1 <<< 53 : ℕ) = 2 ^ 53 from rfl, show (1 <<< 52 : ℕ) = 2 ^ 52 from rfl]
  by_cases hcarry : s = 2 ^ 53
  · rw [if_pos hcarry]
    rw [hcarry] at hlow
    push_cast at hlow
    split
    case isTrue hmax =>
      exact Or.inl ⟨_, _, rfl, ⟨by decide, Or.inl le_rfl, by omega, hmax⟩, .of_carry hlow hlt⟩
    case isFalse hmax => exact Or.inr ⟨rfl, limit_le (not_lt.mp hmax) hlow⟩
  · rw [if_neg hcarry]
    split
    case isTrue hmax =>
      have hle : (s : ℚ) - 1 / 2 < 2 ^ 53 := lt_of_mul_lt_mul_right (hlow.trans_lt hlt) hpow.le
      have hle : (s : ℚ) < 2 ^ 53 + 1 := by linarith
      have hle : s < 2 ^ 53 := (Nat.lt_succ_iff.mp (by exact_mod_cast hle)).lt_of_ne hcarry
      refine Or.inl ⟨_, _, rfl, ⟨hle, ?_, hmin, hmax⟩, .of_nearest hq.le hnearest fun hs h ↦ ?_⟩
      · rcases hmin.eq_or_lt with h | h
        · exact Or.inr h.symm
        · exact Or.inl (hfull h)
      · rw [hs]
        push_cast
        exact hge h
    case isFalse hmax =>
      have hbeyond : maxExponent ≤ e - 1 := by omega
      have hbelow := two_zpow_pos (e - 1)
      have hle := hge (by simp only [minExponent, maxExponent] at *; omega)
      rw [← sub_add_cancel e 1, zpow_add_one₀ two_ne_zero] at hle
      exact Or.inr ⟨rfl, limit_le hbeyond (by linarith)⟩

theorem ofRat_spec (hq : 0 < q) :
    (∃ s e, ofRat q = .finite false s e ∧ Canonical s e ∧ InReach s e q) ∨
    ofRat q = .infinite false ∧ limit ≤ q := by
  have hnum : 0 < q.num.natAbs := Int.natAbs_pos.mpr (Rat.num_pos.mpr hq).ne'
  have hvalue : (q.num.natAbs / q.den : ℚ) = q := by
    rw [Nat.cast_natAbs, abs_of_pos (Rat.num_pos.mpr hq), Rat.num_div_den]
  have hspec := ofRatio_spec hnum q.den_pos false
  rw [hvalue] at hspec
  rwa [ofRat, decide_eq_false hq.le.not_gt]

/-! ## Ranges -/

/-- The least rational with a full significand. -/
def leastFull : ℚ := 2 ^ 52 * 2 ^ minExponent

/-- Half the least positive double: what is not above it is rounded to zero. -/
def halfLeast : ℚ := 2 ^ minExponent / 2

private theorem zpow_minExponent_le (h : minExponent ≤ e) : (2 : ℚ) ^ minExponent ≤ 2 ^ e :=
  zpow_le_zpow_right₀ one_le_two h

namespace Canonical

theorem full_of_le (h : Canonical s e) (hreach : InReach s e q) (hq : leastFull ≤ q) :
    2 ^ 52 ≤ s := by
  rcases h.full with hfull | rfl
  · exact hfull
  · by_contra hlt
    have hs : (s : ℚ) + 1 ≤ 2 ^ 52 := by exact_mod_cast not_le.mp hlt
    have hs := mul_le_mul_of_nonneg_right hs (two_zpow_pos minExponent).le
    have hhigh := (abs_le.mp hreach.abs_sub_le).2
    rw [leastFull] at hq
    linarith [two_zpow_pos minExponent]

theorem lt_limit (h : Canonical s e) (hreach : InReach s e q) : q < limit := by
  have hpow := two_zpow_pos e
  have hbelow : q < (2 ^ 53 - 1 / 2) * 2 ^ e := by
    by_cases hlast : s = 2 ^ 53 - 1
    -- the significand is odd, so the end of the reach is not in it
    · rw [InReach, if_neg (by omega), reach_snd, hlast] at hreach
      push_cast at hreach
      linarith [hreach.2]
    · have hs : s + 2 ≤ 2 ^ 53 := by have := h.lt; omega
      have hs : (s : ℚ) + 2 ≤ 2 ^ 53 := by exact_mod_cast hs
      have hs := mul_le_mul_of_nonneg_right hs hpow.le
      have hhigh := (abs_le.mp hreach.abs_sub_le).2
      linarith
  exact hbelow.trans_le
    (mul_le_mul_of_nonneg_left (zpow_le_zpow_right₀ one_le_two h.le_max) (by norm_num))

theorem pos_iff (h : Canonical s e) (hreach : InReach s e q) : 0 < s ↔ halfLeast < q := by
  constructor
  · intro hs
    have hmin := zpow_minExponent_le h.min_le
    rw [halfLeast]
    by_cases hone : s = 1
    · subst hone
      have hlow := mul_le_mul_of_nonneg_right (le_reach_fst 1 e) (two_zpow_pos e).le
      rw [InReach, if_neg (by decide)] at hreach
      push_cast at hlow
      linarith [hreach.1]
    · have hs : (2 : ℚ) ≤ s := by exact_mod_cast (by omega : 2 ≤ s)
      have hs := mul_le_mul_of_nonneg_right hs (two_zpow_pos e).le
      have hlow := (abs_le.mp hreach.abs_sub_le).1
      linarith [two_zpow_pos minExponent]
  · intro hq
    by_contra hs
    obtain rfl : s = 0 := by omega
    have he : e = minExponent := h.full.resolve_left (by decide)
    have hhigh := (abs_le.mp hreach.abs_sub_le).2
    rw [halfLeast] at hq
    rw [he, Nat.cast_zero, zero_mul] at hhigh
    linarith

end Canonical

end Datapath.Double
