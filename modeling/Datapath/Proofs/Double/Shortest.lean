import Datapath.Proofs.Double.Rounding
import Mathlib.Data.Nat.Cast.Field
import Mathlib.Data.Nat.Cast.Order.Field

/-!
# The shortest decimal

The search for the shortest decimal goes through the decimals around a double with one place, two
places and so on, until one is in the reach of the double. What is found is in reach, so it reads
back as the same double.

A short decimal is kept: one with at most fifteen digits is what the search finds for the double
nearest to it. The last of fifteen places is worth more than the last place of the double, so the
reach has room for one such decimal only, and the search cannot go past it.
-/

namespace Datapath

namespace Double

variable {s : ℕ} {e : ℤ}

theorem ratio_den_pos (s : ℕ) (e : ℤ) : 0 < (ratio s e).2 := by
  rw [ratio]
  split
  · exact one_pos
  · simp [Nat.shiftLeft_eq]

theorem ratio_div (s : ℕ) (e : ℤ) : ((ratio s e).1 : ℚ) / (ratio s e).2 = s * 2 ^ e := by
  rw [ratio]
  split
  case isTrue he =>
    lift e to ℕ using he
    simp [Nat.shiftLeft_eq]
  case isFalse he =>
    obtain ⟨k, rfl⟩ : ∃ k : ℕ, e = -k := ⟨(-e).toNat, by omega⟩
    simp [Nat.shiftLeft_eq, div_eq_mul_inv]

private theorem ratio_num_pos (hs : 0 < s) (e : ℤ) : 0 < (ratio s e).1 := by
  rw [ratio]
  split
  · simpa [Nat.shiftLeft_eq] using hs
  · exact hs

end Double

namespace Decimal

open Double

variable {s places : ℕ} {e : ℤ} {d : Decimal}

/-- The rational that a decimal denotes. -/
def value (d : Decimal) : ℚ := d.digits * 10 ^ d.exponent

theorem ratio_den_pos (d : Decimal) : 0 < d.ratio.2 := by
  rw [ratio]
  split
  · exact one_pos
  · exact Nat.pow_pos (by decide)

theorem ratio_div (d : Decimal) : (d.ratio.1 : ℚ) / d.ratio.2 = d.value := by
  rw [ratio, value]
  split
  case isTrue he =>
    obtain ⟨k, hk⟩ := Int.eq_ofNat_of_zero_le he
    simp [hk, Nat.pow_eq]
  case isFalse he =>
    obtain ⟨k, hk⟩ : ∃ k : ℕ, d.exponent = -k := ⟨(-d.exponent).toNat, by omega⟩
    simp [hk, Nat.pow_eq, div_eq_mul_inv]

theorem trim_value (fuel : ℕ) (d : Decimal) : (trim fuel d).value = d.value := by
  induction fuel generalizing d with
  | zero => rfl
  | succ fuel ih =>
    rw [trim]
    split
    case isFalse => rfl
    case isTrue h =>
      have hdvd : 10 ∣ d.digits :=
        Nat.dvd_of_mod_eq_zero (by simpa using (Bool.and_eq_true_iff.mp h).2)
      rw [ih, value, value, Nat.cast_div hdvd (by norm_num), zpow_add_one₀ (by norm_num)]
      push_cast
      ring

theorem readsBack_iff : readsBack s e d = true ↔ InReach s e d.value := by
  have hden := shift_den_pos two_pos d.ratio_den_pos d.ratio.1 e
  have hvalue := shift_div two_pos d.ratio.1 d.ratio.2 e
  rw [ratio_div, Nat.cast_two, eq_div_iff (two_zpow_pos e).ne'] at hvalue
  rw [readsBack, InReach, ← hvalue]
  dsimp only
  generalize shift 2 d.ratio.1 d.ratio.2 e = r at hden
  have hden : (0 : ℚ) < r.2 := Nat.cast_pos.mpr hden
  have hpow := two_zpow_pos e
  have hlow (n : ℕ) : (n * (2 : ℚ) ^ e ≤ 4 * (r.1 / r.2 * 2 ^ e) ↔ n * r.2 ≤ 4 * r.1) ∧
      (n * (2 : ℚ) ^ e < 4 * (r.1 / r.2 * 2 ^ e) ↔ n * r.2 < 4 * r.1) := by
    rw [← mul_assoc, mul_le_mul_iff_left₀ hpow, mul_lt_mul_iff_left₀ hpow, mul_div_assoc',
      le_div_iff₀ hden, lt_div_iff₀ hden]
    exact ⟨by exact_mod_cast Iff.rfl, by exact_mod_cast Iff.rfl⟩
  have hhigh (n : ℕ) : (4 * (r.1 / r.2 * 2 ^ e) ≤ n * (2 : ℚ) ^ e ↔ 4 * r.1 ≤ n * r.2) ∧
      (4 * (r.1 / r.2 * 2 ^ e) < n * (2 : ℚ) ^ e ↔ 4 * r.1 < n * r.2) := by
    rw [← mul_assoc, mul_le_mul_iff_left₀ hpow, mul_lt_mul_iff_left₀ hpow, mul_div_assoc',
      div_le_iff₀ hden, div_lt_iff₀ hden]
    exact ⟨by exact_mod_cast Iff.rfl, by exact_mod_cast Iff.rfl⟩
  simp only [beq_iff_eq, hlow, hhigh]
  split <;> simp

/-! ## The search -/

/-- The power of ten of the last of some places in a double. -/
def unit (s : ℕ) (e : ℤ) (places : ℕ) : ℤ := Int.log 10 (s * 2 ^ e : ℚ) - places + 1

theorem unit_eq (hs : 0 < s) (e : ℤ) (places : ℕ) :
    floorLog10 (Double.ratio s e).1 (Double.ratio s e).2 - places + 1 = unit s e places := by
  rw [unit, floorLog10_eq (ratio_num_pos hs e) (Double.ratio_den_pos s e), Double.ratio_div]

theorem roundDiv_eq_or (num den : ℕ) :
    roundDiv num den = num / den ∨ roundDiv num den = num / den + 1 := by
  rw [roundDiv]
  split
  · exact Or.inl rfl
  · exact Or.inr rfl

private theorem grid_bounds (num : ℕ) {den : ℕ} (hden : 0 < den) (u : ℤ) :
    (⟨(shift 10 num den u).1 / (shift 10 num den u).2, u⟩ : Decimal).value ≤ num / den ∧
      (num / den : ℚ) <
        (⟨(shift 10 num den u).1 / (shift 10 num den u).2 + 1, u⟩ : Decimal).value := by
  have hpow : (0 : ℚ) < 10 ^ u := zpow_pos (by norm_num) u
  have hshift := shift_div (show 0 < 10 by decide) num den u
  have hpos := shift_den_pos (show 0 < 10 by decide) hden num u
  generalize shift 10 num den u = r at *
  rw [value, value, ← le_div_iff₀ hpow, ← div_lt_iff₀ hpow]
  rw [Nat.cast_ofNat] at hshift
  rw [← hshift]
  dsimp only
  constructor
  · exact Nat.cast_div_le
  · rw [div_lt_iff₀ (Nat.cast_pos.mpr hpos)]
    exact_mod_cast Nat.lt_mul_of_div_lt (Nat.lt_succ_self _) hpos

/-- What one round of the search does: it looks at the two decimals around a double that have the
given places, and takes one that reads back or goes on. -/
theorem shortestFrom_step (hs : 0 < s) (e : ℤ) (fuel places : ℕ) : ∃ k : ℕ,
    k * 10 ^ unit s e places ≤ (s * 2 ^ e : ℚ) ∧
    (s * 2 ^ e : ℚ) < (k + 1 : ℕ) * 10 ^ unit s e places ∧
    ((∃ d, (d = ⟨k, unit s e places⟩ ∨ d = ⟨k + 1, unit s e places⟩) ∧ InReach s e d.value ∧
        shortestFrom s e (fuel + 1) places = d) ∨
      ¬ InReach s e (k * 10 ^ unit s e places) ∧
        ¬ InReach s e ((k + 1 : ℕ) * 10 ^ unit s e places) ∧
        shortestFrom s e (fuel + 1) places = shortestFrom s e fuel (places + 1)) := by
  obtain ⟨hbelow, habove⟩ :=
    grid_bounds (Double.ratio s e).1 (Double.ratio_den_pos s e) (unit s e places)
  rw [Double.ratio_div] at hbelow habove
  refine ⟨_, hbelow, habove, ?_⟩
  generalize hnext : shortestFrom s e fuel (places + 1) = next
  unfold shortestFrom
  simp only [unit_eq hs, hnext]
  generalize shift 10 (Double.ratio s e).1 (Double.ratio s e).2 (unit s e places) = r at *
  cases hlow : readsBack s e ⟨r.1 / r.2, unit s e places⟩ with
  | true =>
    cases hhigh : readsBack s e ⟨r.1 / r.2 + 1, unit s e places⟩ with
    | true =>
      refine Or.inl ⟨_, ?_, ?_, rfl⟩
      · rcases roundDiv_eq_or r.1 r.2 with hround | hround
        · exact Or.inl (by rw [hround])
        · exact Or.inr (by rw [hround])
      · rcases roundDiv_eq_or r.1 r.2 with hround | hround
        · rwa [hround, ← readsBack_iff]
        · rwa [hround, ← readsBack_iff]
    | false => exact Or.inl ⟨_, Or.inl rfl, readsBack_iff.mp hlow, rfl⟩
  | false =>
    have hlow := mt readsBack_iff.mpr (by rw [hlow]; exact Bool.false_ne_true)
    cases hhigh : readsBack s e ⟨r.1 / r.2 + 1, unit s e places⟩ with
    | true => exact Or.inl ⟨_, Or.inr rfl, readsBack_iff.mp hhigh, rfl⟩
    | false =>
      have hhigh := mt readsBack_iff.mpr (by rw [hhigh]; exact Bool.false_ne_true)
      exact Or.inr ⟨hlow, hhigh, rfl⟩

theorem unit_bounds (hs : 0 < s) (e : ℤ) (places : ℕ) :
    (10 : ℚ) ^ unit s e places * 10 ^ places ≤ 10 * (s * 2 ^ e) ∧
      (s * 2 ^ e : ℚ) < 10 ^ unit s e places * 10 ^ places := by
  have hpos : (0 : ℚ) < s * 2 ^ e := mul_pos (Nat.cast_pos.mpr hs) (two_zpow_pos e)
  have hle := Int.zpow_log_le_self (b := 10) (by decide) hpos
  have hlt := Int.lt_zpow_succ_log_self (b := 10) (by decide) (s * 2 ^ e : ℚ)
  have hunit : (10 : ℚ) ^ unit s e places * 10 ^ places =
      10 ^ (Int.log 10 (s * 2 ^ e : ℚ) + 1) := by
    rw [← zpow_natCast, ← zpow_add₀ (by norm_num), unit]
    congr 1
    ring
  rw [Nat.cast_ofNat] at hle hlt
  rw [hunit]
  refine ⟨?_, hlt⟩
  rw [zpow_add_one₀ (by norm_num), mul_comm]
  linarith

/-- After the last round the decimal is so close that it reads back, too. -/
theorem inReach_ofRatio (hs : 0 < s) (hlt : s < 2 ^ 53) (e : ℤ) {places : ℕ}
    (hplaces : 18 ≤ places) :
    InReach s e (ofRatio places (Double.ratio s e).1 (Double.ratio s e).2).value := by
  have hpow := two_zpow_pos e
  have hten : (0 : ℚ) < 10 ^ unit s e places := zpow_pos (by norm_num) _
  have hfine : 2 * (10 : ℚ) ^ unit s e places < 2 ^ e := by
    have hle := (unit_bounds hs e places).1
    have hmany : (10 : ℚ) ^ 18 ≤ 10 ^ places := pow_le_pow_right₀ (by norm_num) hplaces
    have hmany := mul_le_mul_of_nonneg_left hmany hten.le
    have hlt : (s : ℚ) < 2 ^ 53 := by exact_mod_cast hlt
    have hlt := mul_lt_mul_of_pos_right hlt hpow
    linarith
  have hden := shift_den_pos (show 0 < 10 by decide) (Double.ratio_den_pos s e)
    (Double.ratio s e).1 (unit s e places)
  have hnearest := (roundDiv_nearest hden
    (shift 10 (Double.ratio s e).1 (Double.ratio s e).2 (unit s e places)).1).1
  rw [shift_div (by decide), Double.ratio_div, Nat.cast_ofNat] at hnearest
  refine .of_abs_lt hs ?_
  rw [ofRatio, unit_eq hs]
  dsimp only
  rw [value]
  dsimp only
  rw [abs_div_sub hten, div_le_iff₀ hten, abs_sub_comm] at hnearest
  linarith

private theorem shortestFrom_inReach (hs : 0 < s) (hlt : s < 2 ^ 53) (e : ℤ) {fuel places : ℕ}
    (h : 18 ≤ fuel + places) : InReach s e (shortestFrom s e fuel places).value := by
  induction fuel generalizing places with
  | zero => exact inReach_ofRatio hs hlt e (by omega)
  | succ fuel ih =>
    obtain ⟨k, -, -, ⟨d, -, hd, heq⟩ | ⟨-, -, heq⟩⟩ := shortestFrom_step hs e fuel places
    · rwa [heq]
    · rw [heq]
      exact ih (by omega)

theorem shortest_inReach (hs : 0 < s) (hlt : s < 2 ^ 53) (e : ℤ) :
    InReach s e (shortest s e).value := by
  rw [shortest, trim_value]
  exact shortestFrom_inReach hs hlt e (by decide)

/-! ## Short decimals -/

theorem exists_eq_mul {g : ℤ} (h : g ≤ d.exponent) : ∃ n : ℕ, d.value = n * 10 ^ g := by
  obtain ⟨k, hk⟩ := Int.eq_ofNat_of_zero_le (sub_nonneg.mpr h)
  refine ⟨d.digits * 10 ^ k, ?_⟩
  rw [value, ← sub_add_cancel d.exponent g, hk, zpow_add₀ (by norm_num)]
  push_cast
  rw [zpow_natCast, mul_assoc]

/-- A double has at most one decimal in its reach among those whose last place is worth more than
its own. -/
theorem value_eq_of_inReach {d' : Decimal} (hd : InReach s e d.value) (hd' : InReach s e d'.value)
    (h : (2 : ℚ) ^ e < 10 ^ d.exponent) (h' : (2 : ℚ) ^ e < 10 ^ d'.exponent) :
    d.value = d'.value := by
  -- both are multiples of the lesser of the two last places
  obtain ⟨g, hg⟩ : ∃ g, g = min d.exponent d'.exponent := ⟨_, rfl⟩
  obtain ⟨n, hn⟩ := d.exists_eq_mul (g := g) (by omega)
  obtain ⟨n', hn'⟩ := d'.exists_eq_mul (g := g) (by omega)
  have hten : (0 : ℚ) < 10 ^ g := zpow_pos (by norm_num) g
  have hwide : (2 : ℚ) ^ e < 10 ^ g := by
    rcases min_choice d.exponent d'.exponent with hmin | hmin
    · rwa [hg, hmin]
    · rwa [hg, hmin]
  have hdist : |d.value - d'.value| < 10 ^ g := by
    calc |d.value - d'.value| ≤ |d.value - s * 2 ^ e| + |s * 2 ^ e - d'.value| := abs_sub_le _ _ _
      _ = |d.value - s * 2 ^ e| + |d'.value - s * 2 ^ e| := by rw [abs_sub_comm _ d'.value]
      _ ≤ 2 ^ e := by linarith [hd.abs_sub_le, hd'.abs_sub_le]
      _ < 10 ^ g := hwide
  rw [hn, hn', ← sub_mul, abs_mul, abs_of_pos hten, mul_lt_iff_lt_one_left hten] at hdist
  have hzero : |(n : ℤ) - n'| < 1 := by exact_mod_cast hdist
  rw [hn, hn', show n = n' by exact_mod_cast sub_eq_zero.mp (Int.abs_lt_one_iff.mp hzero)]

/-- The last of at most fifteen places is worth more than that of a double. -/
theorem lt_zpow_unit (hfull : 2 ^ 52 ≤ s) (e : ℤ) (hplaces : places ≤ 15) :
    (2 : ℚ) ^ e < 10 ^ unit s e places := by
  have hs : 0 < s := by omega
  have hlt := (unit_bounds hs e places).2
  have hten : (0 : ℚ) < 10 ^ unit s e places := zpow_pos (by norm_num) _
  have hfew : (10 : ℚ) ^ places ≤ 10 ^ 15 := pow_le_pow_right₀ (by norm_num) hplaces
  have hfew := mul_le_mul_of_nonneg_left hfew hten.le
  have hfull : (2 ^ 52 : ℚ) ≤ s := by exact_mod_cast hfull
  have hfull := mul_le_mul_of_nonneg_right hfull (two_zpow_pos e).le
  linarith

theorem lt_zpow_exponent (hfull : 2 ^ 52 ≤ s) (hd : InReach s e d.value)
    (hshort : d.digits < 10 ^ 15) : (2 : ℚ) ^ e < 10 ^ d.exponent := by
  have hten : (0 : ℚ) < 10 ^ d.exponent := zpow_pos (by norm_num) _
  have hshort : (d.digits : ℚ) < 10 ^ 15 := by exact_mod_cast hshort
  have hshort := mul_lt_mul_of_pos_right hshort hten
  have hfull : (2 ^ 52 : ℚ) ≤ s := by exact_mod_cast hfull
  have hfull := mul_le_mul_of_nonneg_right hfull (two_zpow_pos e).le
  have hlow := (abs_le.mp hd.abs_sub_le).1
  rw [value] at hlow
  linarith [two_zpow_pos e]

/-- A short decimal in reach has its last place within the first fifteen places of the double. -/
theorem unit_le_exponent (hfull : 2 ^ 52 ≤ s) (hd : InReach s e d.value)
    (hshort : d.digits < 10 ^ 15) : unit s e 15 ≤ d.exponent := by
  have hs : 0 < s := by omega
  by_contra hlt
  -- otherwise the power of ten with the leading digit of the double is between the two
  have hbelow : d.value < (⟨10 ^ 14, unit s e 15⟩ : Decimal).value := by
    have hle : d.exponent ≤ unit s e 15 - 1 := by omega
    have hle : (10 : ℚ) ^ d.exponent ≤ 10 ^ (unit s e 15 - 1) :=
      zpow_le_zpow_right₀ (by norm_num) hle
    rw [zpow_sub_one₀ (by norm_num)] at hle
    have hten : (0 : ℚ) < 10 ^ d.exponent := zpow_pos (by norm_num) _
    have hshort : (d.digits : ℚ) < 10 ^ 15 := by exact_mod_cast hshort
    have hshort := mul_lt_mul_of_pos_right hshort hten
    rw [value, value]
    push_cast
    linarith
  have hpower : (⟨10 ^ 14, unit s e 15⟩ : Decimal).value ≤ s * 2 ^ e := by
    have hle := (unit_bounds hs e 15).1
    rw [value]
    push_cast
    linarith
  have hreach := hd.convex (.self hs e) hbelow.le hpower
  exact hbelow.ne (value_eq_of_inReach hd hreach (lt_zpow_exponent hfull hd hshort)
    (lt_zpow_unit hfull e le_rfl))

/-- So one of its neighbours with fifteen places is in reach. -/
theorem inReach_neighbour (hfull : 2 ^ 52 ≤ s) (hd : InReach s e d.value)
    (hshort : d.digits < 10 ^ 15) {k : ℕ} (hbelow : k * 10 ^ unit s e 15 ≤ (s * 2 ^ e : ℚ))
    (habove : (s * 2 ^ e : ℚ) < (k + 1 : ℕ) * 10 ^ unit s e 15) :
    InReach s e (k * 10 ^ unit s e 15) ∨ InReach s e ((k + 1 : ℕ) * 10 ^ unit s e 15) := by
  have hs : 0 < s := by omega
  have hten : (0 : ℚ) < 10 ^ unit s e 15 := zpow_pos (by norm_num) _
  obtain ⟨n, hn⟩ := d.exists_eq_mul (unit_le_exponent hfull hd hshort)
  rcases le_or_gt d.value (s * 2 ^ e) with hle | hgt
  · have hlt : n < k + 1 := by
      rw [hn] at hle
      exact_mod_cast lt_of_mul_lt_mul_right (hle.trans_lt habove) hten.le
    have hle : (n : ℚ) ≤ k := by exact_mod_cast Nat.lt_succ_iff.mp hlt
    refine Or.inl (hd.convex (.self hs e) ?_ hbelow)
    rw [hn]
    exact mul_le_mul_of_nonneg_right hle hten.le
  · have hlt : k < n := by
      rw [hn] at hgt
      exact_mod_cast lt_of_mul_lt_mul_right (hbelow.trans_lt hgt) hten.le
    have hle : ((k + 1 : ℕ) : ℚ) ≤ n := by exact_mod_cast hlt
    refine Or.inr (InReach.convex (.self hs e) hd habove.le ?_)
    rw [hn]
    exact mul_le_mul_of_nonneg_right hle hten.le

private theorem shortestFrom_of_short (hfull : 2 ^ 52 ≤ s) (hd : InReach s e d.value)
    (hshort : d.digits < 10 ^ 15) {fuel places : ℕ} (hplaces : places ≤ 15)
    (hfuel : 15 < fuel + places) : (shortestFrom s e fuel places).value = d.value := by
  have hs : 0 < s := by omega
  induction fuel generalizing places with
  | zero => omega
  | succ fuel ih =>
    obtain ⟨k, hbelow, habove, ⟨found, hfound, hreach, heq⟩ | ⟨hlow, hhigh, heq⟩⟩ :=
      shortestFrom_step hs e fuel places
    · rw [heq]
      refine value_eq_of_inReach hreach hd ?_ (lt_zpow_exponent hfull hd hshort)
      rcases hfound with rfl | rfl
      · exact lt_zpow_unit hfull e hplaces
      · exact lt_zpow_unit hfull e hplaces
    · rcases hplaces.eq_or_lt with rfl | hlt
      · rcases inReach_neighbour hfull hd hshort hbelow habove with h | h
        · exact absurd h hlow
        · exact absurd h hhigh
      · rw [heq]
        exact ih hlt (by omega)

/-- **A short decimal is kept.** One with at most fifteen digits that is in the reach of a double
with a full significand is the shortest decimal that reads back. -/
theorem shortest_of_short (hfull : 2 ^ 52 ≤ s) (hd : InReach s e d.value)
    (hshort : d.digits < 10 ^ 15) : (shortest s e).value = d.value := by
  rw [shortest, trim_value]
  exact shortestFrom_of_short hfull hd hshort (by decide) (by decide)

end Decimal

end Datapath
