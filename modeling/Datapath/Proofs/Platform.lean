import Datapath.Platform
import Datapath.Proofs.Double.Writing
import Datapath.Proofs.Outcome

/-!
# Thresholds of clocks

The period of a clock and the time of a unit become doubles and are written down as decimals before
they are divided. Main statement: the threshold is the floor of the exact quotient if both constants
have at most fifteen digits, or if no integer is too close to the quotient. It is not in general: a
clock of 3 MHz at 1/300 ns per unit has the threshold 99999.
-/

namespace Datapath.Platform

open Double

variable {frequency unitTime period : Json} {p : Platform} {x : Double} {q t u t' u' : ℚ}

/-! ## What a platform is made of -/

theorem exact_eq_ok {value : Json} : exact value = .ok q ↔ Literal.rat? value.plain = some q := by
  rw [exact]
  cases Literal.rat? value.plain with
  | none => simp
  | some w => simp

theorem exact_real : exact (.real x) = .ok q ↔ x.written? = some q := by
  rw [exact_eq_ok, show (Json.real x).plain = x.toText from rfl, rat?_toText]

theorem nearest_eq_ok : nearest q = .ok x ↔ ofRat q = x ∧ ∀ negative, x ≠ .infinite negative := by
  rw [nearest]
  cases ofRat q with
  | nan payload => simp +contextual [eq_comm]
  | infinite negative => simp +contextual [eq_comm]
  | finite negative s e => simp +contextual [eq_comm]

theorem nearest_of_written? (h : (ofRat q).written? = some u) : nearest q = .ok (ofRat q) := by
  refine nearest_eq_ok.mpr ⟨rfl, fun negative hinfinite ↦ ?_⟩
  rw [hinfinite] at h
  cases h

theorem make_eq_ok : make unitTime period = .ok p ↔ ∃ u t, exact unitTime = .ok u ∧
    exact period = .ok t ∧ 0 < u ∧ 0 < t ∧ p = ⟨unitTime, period, (t / u).floor⟩ := by
  constructor
  · intro h
    obtain ⟨u, hu, h⟩ := Outcome.bind_eq_ok.mp h
    obtain ⟨t, ht, h⟩ := Outcome.bind_eq_ok.mp h
    by_cases hupos : u ≤ 0
    · rw [if_pos hupos] at h
      cases h
    · rw [if_neg hupos] at h
      by_cases htpos : t ≤ 0
      · rw [if_pos htpos] at h
        cases h
      · rw [if_neg htpos] at h
        cases h
        exact ⟨u, t, hu, ht, not_le.mp hupos, not_le.mp htpos, rfl⟩
  · rintro ⟨u, t, hu, ht, hupos, htpos, rfl⟩
    rw [make, hu, ht, Outcome.ok_bind, Outcome.ok_bind, if_neg hupos.not_ge, if_neg htpos.not_ge]
    rfl

/-- A platform of a clock: both constants are numbers in writing, and neither of them is lost on the
way. -/
theorem ofClock_eq_ok : ofClock frequency unitTime = .ok p ↔ ∃ f u t' u',
    exact frequency = .ok f ∧ exact unitTime = .ok u ∧ 0 < f ∧
    ((ofRat (1000 / f)).written? = some t' ∧ 0 < t') ∧ ((ofRat u).written? = some u' ∧ 0 < u') ∧
    p = ⟨.real (ofRat u), .real (ofRat (1000 / f)), (t' / u').floor⟩ := by
  constructor
  · intro h
    obtain ⟨f, hf, h⟩ := Outcome.bind_eq_ok.mp h
    split at h
    · cases h
    · next hfpos =>
      obtain ⟨u, hu, h⟩ := Outcome.bind_eq_ok.mp h
      obtain ⟨x, hx, h⟩ := Outcome.bind_eq_ok.mp h
      obtain ⟨y, hy, h⟩ := Outcome.bind_eq_ok.mp h
      obtain ⟨u', t', hu', ht', hu'pos, ht'pos, hp⟩ := make_eq_ok.mp h
      obtain ⟨rfl, -⟩ := nearest_eq_ok.mp hx
      obtain ⟨rfl, -⟩ := nearest_eq_ok.mp hy
      exact ⟨f, u, t', u', hf, hu, not_le.mp hfpos, ⟨exact_real.mp ht', ht'pos⟩,
        ⟨exact_real.mp hu', hu'pos⟩, hp⟩
  · rintro ⟨f, u, t', u', hf, hu, hfpos, ⟨ht', ht'pos⟩, ⟨hu', hu'pos⟩, hp⟩
    rw [ofClock, hf, Outcome.ok_bind, if_neg hfpos.not_ge, hu, Outcome.ok_bind,
      nearest_of_written? hu', Outcome.ok_bind, nearest_of_written? ht', Outcome.ok_bind]
    exact make_eq_ok.mpr
      ⟨u', t', exact_real.mpr hu', exact_real.mpr ht', hu'pos, ht'pos, hp⟩

theorem exists_ofClock_iff : (∃ p, ofClock frequency unitTime = .ok p) ↔
    ∃ f u, exact frequency = .ok f ∧ exact unitTime = .ok u ∧ InRange (1000 / f) ∧ InRange u := by
  constructor
  · rintro ⟨p, h⟩
    obtain ⟨f, u, t', u', hf, hu, -, ht', hu', -⟩ := ofClock_eq_ok.mp h
    exact ⟨f, u, hf, hu, exists_written?_pos_iff.mp ⟨t', ht'⟩, exists_written?_pos_iff.mp ⟨u', hu'⟩⟩
  · rintro ⟨f, u, hf, hu, ht, hu'⟩
    have hfpos : 0 < f := (div_pos_iff_of_pos_left (by norm_num)).mp ht.pos
    obtain ⟨t', ht'⟩ := exists_written?_pos_iff.mpr ht
    obtain ⟨u', hu'⟩ := exists_written?_pos_iff.mpr hu'
    exact ⟨_, ofClock_eq_ok.mpr ⟨f, u, t', u', hf, hu, hfpos, ht', hu', rfl⟩⟩

/-! ## Floors of quotients -/

/-- A depth is above the threshold exactly if it takes longer than a period. -/
theorem floor_lt_iff (hu : 0 < u) (depth : ℤ) : (t / u).floor < depth ↔ t < depth * u := by
  rw [Rat.floor_lt_iff, div_lt_iff₀ hu]

theorem threshold_of_ofClock (h : ofClock frequency unitTime = .ok p) :
    ∃ u t, exact p.unitTime = .ok u ∧ exact p.period = .ok t ∧
      ∀ depth : ℤ, p.threshold < depth ↔ t < depth * u := by
  obtain ⟨f, u, t', u', -, -, -, ⟨ht', -⟩, ⟨hu', hpos⟩, rfl⟩ := ofClock_eq_ok.mp h
  exact ⟨u', t', exact_real.mpr hu', exact_real.mpr ht', floor_lt_iff hpos⟩

private theorem floor_eq_of_abs_sub_lt (h : ∀ n : ℤ, |t' - t| < |n - t|) : t'.floor = t.floor := by
  have hfloor : ((t.floor : ℤ) : ℚ) ≤ t := Rat.floor_le t
  have hnext : t < ((t.floor + 1 : ℤ) : ℚ) := by exact_mod_cast Rat.lt_floor_add_one t
  have hbelow := h t.floor
  have habove := h (t.floor + 1)
  rw [abs_of_nonpos (sub_nonpos.mpr hfloor), abs_lt] at hbelow
  rw [abs_of_pos (sub_pos.mpr hnext), abs_lt] at habove
  have hle : t.floor ≤ t'.floor := Rat.le_floor_iff.mpr (by linarith)
  have hlt : t'.floor < t.floor + 1 := Rat.floor_lt_iff.mpr (by linarith)
  omega

private theorem abs_floor_sub_floor_le (h : |t' - t| < 1) : |t'.floor - t.floor| ≤ 1 := by
  obtain ⟨hlow, hhigh⟩ := abs_lt.mp h
  have hle : t.floor - 1 ≤ t'.floor := by
    rw [Rat.le_floor_iff]
    push_cast
    linarith [Rat.floor_le t]
  have hlt : t'.floor < t.floor + 2 := by
    rw [Rat.floor_lt_iff]
    have hnext : t < t.floor + 1 := by exact_mod_cast Rat.lt_floor_add_one t
    push_cast
    linarith
  rw [abs_le]
  omega

private theorem abs_div_sub_div_le (hu : 0 < u) (ht : |t' - t| ≤ t / 2 ^ 51)
    (hu' : |u' - u| ≤ u / 2 ^ 51) : |t' / u' - t / u| ≤ t / u / 2 ^ 49 := by
  have htpos : 0 ≤ t := by linarith [abs_nonneg (t' - t)]
  have hhalf : u / 2 ≤ u' := by linarith [(abs_le.mp hu').1]
  have hu'pos : 0 < u' := by linarith
  have hnum : |t' * u - t * u'| ≤ 2 * (t * u / 2 ^ 51) := calc
    |t' * u - t * u'| = |(t' - t) * u - t * (u' - u)| := by ring_nf
    _ ≤ |(t' - t) * u| + |t * (u' - u)| := abs_sub _ _
    _ = |t' - t| * u + t * |u' - u| := by rw [abs_mul, abs_mul, abs_of_pos hu, abs_of_nonneg htpos]
    _ ≤ t / 2 ^ 51 * u + t * (u / 2 ^ 51) := by gcongr
    _ = 2 * (t * u / 2 ^ 51) := by ring
  calc
    |t' / u' - t / u| = |t' * u - t * u'| / (u' * u) := by
      rw [div_sub_div _ _ hu'pos.ne' hu.ne', abs_div, abs_of_pos (mul_pos hu'pos hu), mul_comm u' t]
    _ ≤ 2 * (t * u / 2 ^ 51) / (u / 2 * u) := by gcongr
    _ = t / u / 2 ^ 49 := by field_simp

/-! ## When the threshold is exact -/

/-- **Thresholds of clocks.** The threshold is the floor of a quotient of two decimals, and that is
the floor of the exact quotient if both constants have at most fifteen digits, or if no integer is
too close to the exact quotient. Below `2 ^ 49` it is off by one at most. -/
theorem threshold_exact_of_ofClock (h : ofClock frequency unitTime = .ok p) : ∃ f u t' u',
    exact frequency = .ok f ∧ exact unitTime = .ok u ∧ 0 < f ∧ 0 < u ∧
    (ofRat (1000 / f)).written? = some t' ∧ (ofRat u).written? = some u' ∧
    p.threshold = (t' / u').floor ∧
    (Short (1000 / f) ∧ Short u → p.threshold = (1000 / (f * u)).floor) ∧
    (Full (1000 / f) ∧ Full u →
      ((∀ n : ℤ, 1000 / (f * u) / 2 ^ 49 < |n - 1000 / (f * u)|) →
        p.threshold = (1000 / (f * u)).floor) ∧
      (1000 / (f * u) < 2 ^ 49 → |p.threshold - (1000 / (f * u)).floor| ≤ 1)) := by
  obtain ⟨f, u, t', u', hf, hu, hfpos, ⟨ht', -⟩, ⟨hu', hu'pos⟩, rfl⟩ := ofClock_eq_ok.mp h
  have hupos : 0 < u := lt_of_not_ge fun hle ↦ (written?_nonpos hle hu').not_gt hu'pos
  refine ⟨f, u, t', u', hf, hu, hfpos, hupos, ht', hu', rfl, ?_⟩
  rw [← div_div]
  constructor
  · rintro ⟨ht, hu⟩
    rw [written?_of_short ht ht', written?_of_short hu hu']
  · rintro ⟨ht, hu⟩
    have hclose : |t' / u' - 1000 / f / u| ≤ 1000 / f / u / 2 ^ 49 :=
      abs_div_sub_div_le hupos (abs_written?_sub_le ht ht') (abs_written?_sub_le hu hu')
    constructor
    · intro hfar
      exact floor_eq_of_abs_sub_lt fun n ↦ hclose.trans_lt (hfar n)
    · intro hsmall
      exact abs_floor_sub_floor_le (hclose.trans_lt ((div_lt_one (by norm_num)).mpr hsmall))

/-- A period of 40 at 1.6 per unit has short constants. That of 3 MHz is no decimal at all, but its
quotient is not close to an integer. -/
theorem threshold_exact_megahertz :
    (∃ p, ofClock (.int 25) (.str "1.6") = .ok p ∧ p.threshold = 25) ∧
      ∃ p, ofClock (.int 3) (.str "1.6") = .ok p ∧ p.threshold = 208 := by
  have hu' : exact (.str "1.6") = .ok (8 / 5) := exact_eq_ok.mpr (by decide +kernel)
  constructor
  · obtain ⟨p, hp⟩ := Outcome.exists_of_isOk
      (show (ofClock (.int 25) (.str "1.6")).isOk = true by decide +kernel)
    have hf' : exact (.int 25) = .ok 25 := exact_eq_ok.mpr (by decide +kernel)
    obtain ⟨f, u, -, -, hf, hu, -, -, -, -, -, hshort, -⟩ := threshold_exact_of_ofClock hp
    cases hf.symm.trans hf'
    cases hu.symm.trans hu'
    refine ⟨p, hp, (hshort ⟨⟨?_, ⟨40, 0⟩, by decide, ?_⟩, ?_, ⟨16, -1⟩, by decide, ?_⟩).trans
      (by decide +kernel)⟩
    · exact full_of_one_le (by norm_num)
    · norm_num [Decimal.value]
    · exact full_of_one_le (by norm_num)
    · norm_num [Decimal.value]
  · obtain ⟨p, hp⟩ := Outcome.exists_of_isOk
      (show (ofClock (.int 3) (.str "1.6")).isOk = true by decide +kernel)
    have hf' : exact (.int 3) = .ok 3 := exact_eq_ok.mpr (by decide +kernel)
    obtain ⟨f, u, -, -, hf, hu, -, -, -, -, -, -, hfull⟩ := threshold_exact_of_ofClock hp
    cases hf.symm.trans hf'
    cases hu.symm.trans hu'
    refine ⟨p, hp, ((hfull ⟨?_, ?_⟩).1 fun n ↦ ?_).trans (by decide +kernel)⟩
    · exact full_of_one_le (by norm_num)
    · exact full_of_one_le (by norm_num)
    · rcases le_or_gt n 208 with hn | hn
      · have hn : (n : ℚ) ≤ 208 := by exact_mod_cast hn
        rw [abs_sub_comm]
        exact lt_of_lt_of_le (by linarith) (le_abs_self _)
      · have hn : (209 : ℚ) ≤ n := by exact_mod_cast hn
        exact lt_of_lt_of_le (by linarith) (le_abs_self _)

/-- Thirds are no decimals, and here the quotient is an integer. -/
theorem threshold_thirds : ∃ p, ofClock (.int 3) (.str "1/300") = .ok p ∧
    exact (.int 3) = .ok 3 ∧ exact (.str "1/300") = .ok (1 / 300) ∧
    p.threshold = 99999 ∧ (1000 / (3 * (1 / 300)) : ℚ).floor = 100000 := by
  obtain ⟨p, hp, hthreshold⟩ := Outcome.exists_of_any
    (show (ofClock (.int 3) (.str "1/300")).toOption.any (·.threshold == 99999) = true by
      decide +kernel)
  exact ⟨p, hp, exact_eq_ok.mpr (by decide +kernel), exact_eq_ok.mpr (by decide +kernel),
    beq_iff_eq.mp hthreshold, by decide +kernel⟩

end Datapath.Platform
