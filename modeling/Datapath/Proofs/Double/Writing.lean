import Datapath.Proofs.Double.Shortest
import Datapath.Proofs.Text

/-!
# Doubles in writing

A double is written as its shortest decimal, in positional or in exponent notation. Either way the
text is a numeral, with a power of ten after it or not, and it is read as the rational that the
decimal denotes. So a rational can go through a double and its writing and be read again: up to
fifteen digits come back unchanged, and any other rational loses one unit in the last place at most,
unless it is too small or too large.
-/

namespace Datapath

namespace Literal

open Text

variable {c : Char} {suffix : List Char}

/-! ## Digits of natural numbers -/

theorem ofDigits_append (a b : List ℕ) :
    ofDigits (a ++ b) = ofDigits a * 10 ^ b.length + ofDigits b := by
  induction b using List.reverseRecOn with
  | nil => simp [ofDigits]
  | append_singleton b d ih =>
    rw [ofDigits] at ih ⊢
    rw [← List.append_assoc, List.foldl_append, ih]
    simp [ofDigits, pow_succ]
    ring

theorem ofDigits_zeros (k : ℕ) : ofDigits (List.replicate k 0) = 0 := by
  induction k with
  | zero => rfl
  | succ k ih =>
    rw [List.replicate_succ]
    exact ih

theorem ofDigits_toDigits (n : ℕ) : ofDigits ((Nat.toDigits 10 n).filterMap digitValue?) = n := by
  have hvalues : (Nat.toDigits 10 n).filterMap digitValue? =
      (Nat.toDigits 10 n).map fun c ↦ c.toNat - 48 := by
    rw [← List.filterMap_eq_map]
    exact List.filterMap_congr fun c hc ↦
      digitValue?_of_isDigit (Nat.isDigit_of_mem_toDigits (by decide) le_rfl hc)
  rw [hvalues, ofDigits, List.foldl_map]
  exact Nat.ofDigitChars_ten_toDigits

theorem filterMap_zeros (k : ℕ) :
    (List.replicate k '0').filterMap digitValue? = List.replicate k 0 := by
  induction k with
  | zero => rfl
  | succ k ih =>
    rw [List.replicate_succ, List.filterMap_cons_some (show digitValue? '0' = some 0 by decide), ih]
    rfl

private theorem ratio?_ratio (negative : Bool) (d : Decimal) :
    ratio? negative d.ratio.1 d.ratio.2 = some (if negative then -d.value else d.value) := by
  rw [ratio?, if_neg d.ratio_den_pos.ne', Rat.mkRat_eq_div, ← d.ratio_div]
  cases negative with
  | false => rfl
  | true =>
    rw [signed, if_pos rfl, if_pos rfl]
    push_cast
    rw [neg_div]

theorem rat?_of_value (n : Numeral) {d : Decimal} {e : ℤ}
    (hsuffix : ∀ c ∈ suffix.head?, isDigit c = false ∧ c ≠ '_' ∧ c ≠ '.' ∧ c ≠ '/')
    (hexponent : exponent suffix = (e, []))
    (hvalue : (⟨ofDigits ((n.whole ++ n.part).filterMap digitValue?), e - n.part.length⟩ :
      Decimal).value = d.value) :
    rat? (String.ofList (n.text ++ suffix)) = some (if n.negative then -d.value else d.value) := by
  rw [n.rat?_text_append hsuffix hexponent, ratio?_ratio, hvalue]

end Literal

/-! ## Decimals in writing -/

namespace Decimal

open Text Literal

variable {d : Decimal}

theorem isDigit_of_mem_zeros {c : Char} {k : ℕ} (h : c ∈ List.replicate k '0') :
    isDigit c = true := by
  rw [List.eq_of_mem_replicate h]
  decide

/-- A whole number of tens with a zero after the point. -/
def roundNumeral (negative : Bool) (d : Decimal) : Numeral where
  negative := negative
  whole := Nat.toDigits 10 d.digits ++ List.replicate d.exponent.toNat '0'
  part := ['0']
  whole_ne_nil := by simp [Nat.toDigits_ne_nil]
  whole_digits c hc := (List.mem_append.mp hc).elim isDigit_of_mem_toDigits isDigit_of_mem_zeros
  part_digits := by simp; decide

/-- The digits of a decimal with zeros before them, so that there is one before the point. -/
def padded (d : Decimal) : List Char :=
  List.replicate ((-d.exponent).toNat + 1 - length d.digits) '0' ++ Nat.toDigits 10 d.digits

theorem isDigit_of_mem_padded {c : Char} (h : c ∈ d.padded) : isDigit c = true :=
  (List.mem_append.mp h).elim isDigit_of_mem_zeros isDigit_of_mem_toDigits

theorem lt_length_padded (d : Decimal) : (-d.exponent).toNat < d.padded.length := by
  rw [padded, List.length_append, List.length_replicate, ← length]
  omega

/-- A decimal with its point before the last places. -/
def pointNumeral (negative : Bool) (d : Decimal) : Numeral where
  negative := negative
  whole := d.padded.take (d.padded.length - (-d.exponent).toNat)
  part := d.padded.drop (d.padded.length - (-d.exponent).toNat)
  whole_ne_nil := by
    have hlt := d.lt_length_padded
    rw [← List.length_pos_iff, List.length_take]
    omega
  whole_digits c hc := isDigit_of_mem_padded (List.mem_of_mem_take hc)
  part_digits c hc := isDigit_of_mem_padded (List.mem_of_mem_drop hc)

/-- A decimal with its point after the leading digit. -/
def leadingNumeral (negative : Bool) (d : Decimal) : Numeral where
  negative := negative
  whole := (Nat.toDigits 10 d.digits).take 1
  part := (Nat.toDigits 10 d.digits).drop 1
  whole_ne_nil := by simp [Nat.toDigits_ne_nil]
  whole_digits c hc := isDigit_of_mem_toDigits (List.mem_of_mem_take hc)
  part_digits c hc := isDigit_of_mem_toDigits (List.mem_of_mem_drop hc)

/-- The power of ten after a decimal in exponent notation. -/
def powerText (d : Decimal) : List Char :=
  'e' :: (if d.leading < 0 then '-' else '+') ::
    List.replicate (2 - length d.leading.natAbs) '0' ++ Nat.toDigits 10 d.leading.natAbs

private theorem positional_of_nonneg (negative : Bool) (h : 0 ≤ d.exponent) :
    (if negative then "-" else "") ++ (d.positional ++ ".0") =
      String.ofList ((d.roundNumeral negative).text ++ []) := by
  rw [← String.toList_inj]
  cases negative <;> simp [positional, h, roundNumeral, Numeral.text, Numeral.unsigned]

private theorem positional_of_neg (negative : Bool) (h : d.exponent < 0) :
    (if negative then "-" else "") ++ d.positional =
      String.ofList ((d.pointNumeral negative).text ++ []) := by
  have hpositional : d.positional =
      String.ofList (d.padded.take (d.padded.length - (-d.exponent).toNat)) ++ "." ++
        String.ofList (d.padded.drop (d.padded.length - (-d.exponent).toNat)) := by
    rw [positional, if_neg h.not_ge]
    rfl
  have hpart : d.padded.drop (d.padded.length - (-d.exponent).toNat) ≠ [] := by
    have hlt := d.lt_length_padded
    rw [ne_eq, List.drop_eq_nil_iff]
    omega
  rw [← String.toList_inj, hpositional, Numeral.text, Numeral.unsigned, pointNumeral, if_neg hpart]
  cases negative <;> simp

private theorem scientific_eq (negative : Bool) (d : Decimal) :
    (if negative then "-" else "") ++ d.scientific =
      String.ofList ((d.leadingNumeral negative).text ++ d.powerText) := by
  have hmagnitude : (if (toString d.leading.natAbs).length < 2 then
      "0" ++ toString d.leading.natAbs else toString d.leading.natAbs).toList =
      List.replicate (2 - length d.leading.natAbs) '0' ++ Nat.toDigits 10 d.leading.natAbs := by
    have hpos : 0 < length d.leading.natAbs := Nat.length_toDigits_pos
    rw [Nat.toString_eq_ofList_toDigits, String.length_ofList, ← length]
    split
    case isTrue h =>
      rw [show 2 - length d.leading.natAbs = 1 by omega]
      simp
    case isFalse h =>
      rw [show 2 - length d.leading.natAbs = 0 by omega]
      simp
  have hmark : (if d.leading < 0 then "e-" else "e+").toList =
      ['e', if d.leading < 0 then '-' else '+'] := by
    split <;> rfl
  rw [← String.toList_inj, scientific, Numeral.text, Numeral.unsigned, leadingNumeral, powerText]
  simp only [String.toList_append, String.toList_ofList, hmagnitude, hmark]
  cases hfraction : (Nat.toDigits 10 d.digits).drop 1 with
  | nil => cases negative <;> simp
  | cons c rest => cases negative <;> simp

theorem ofDigits_zeros_append (k n : ℕ) :
    ofDigits ((List.replicate k '0' ++ Nat.toDigits 10 n).filterMap digitValue?) = n := by
  rw [List.filterMap_append, ofDigits_append, filterMap_zeros, ofDigits_zeros, ofDigits_toDigits,
    Nat.zero_mul, Nat.zero_add]

private theorem exponent_powerText (d : Decimal) :
    Literal.exponent d.powerText = (d.leading, []) := by
  have hdigits : ∀ c ∈ List.replicate (2 - length d.leading.natAbs) '0' ++
      Nat.toDigits 10 d.leading.natAbs, isDigit c = true :=
    fun c hc ↦ (List.mem_append.mp hc).elim isDigit_of_mem_zeros isDigit_of_mem_toDigits
  have hrun := digitRun_append hdigits
    (show ∀ c ∈ ([] : List Char).head?, isDigit c = false ∧ c ≠ '_' by simp)
  have hvalue := ofDigits_zeros_append (2 - length d.leading.natAbs) d.leading.natAbs
  have hlength := length_filterMap_digits hdigits
  have hpos : 0 < (List.replicate (2 - length d.leading.natAbs) '0' ++
      Nat.toDigits 10 d.leading.natAbs).length := by
    have := Nat.length_toDigits_pos (b := 10) (n := d.leading.natAbs)
    rw [List.length_append]
    omega
  rw [List.append_nil] at hrun
  have hsign : sign ((if d.leading < 0 then '-' else '+') ::
      (List.replicate (2 - length d.leading.natAbs) '0' ++ Nat.toDigits 10 d.leading.natAbs)) =
      (decide (d.leading < 0),
        List.replicate (2 - length d.leading.natAbs) '0' ++ Nat.toDigits 10 d.leading.natAbs) := by
    by_cases h : d.leading < 0 <;> simp [h, sign]
  rw [powerText, List.cons_append, List.cons_append, Literal.exponent, if_pos (by decide), hsign]
  simp only [hrun]
  split
  case h_1 heq =>
    rw [(Prod.mk.inj heq).1] at hlength
    simp only [List.length_nil] at hlength
    omega
  case h_2 heq =>
    obtain ⟨rfl, rfl⟩ := Prod.mk.inj heq
    rw [hvalue, signed, Prod.mk.injEq]
    refine ⟨?_, rfl⟩
    simp only [decide_eq_true_eq]
    split <;> omega

theorem value_eq_of_digits {d' : Decimal} {k : ℕ} (hdigits : d'.digits = d.digits * 10 ^ k)
    (hexponent : d'.exponent + k = d.exponent) : d'.value = d.value := by
  rw [value, value, hdigits, ← hexponent, zpow_add₀ (by norm_num), zpow_natCast]
  push_cast
  ring

private theorem rat?_positional_of_nonneg (negative : Bool) (h : 0 ≤ d.exponent) :
    rat? ((if negative then "-" else "") ++ (d.positional ++ ".0")) =
      some (if negative then -d.value else d.value) := by
  rw [positional_of_nonneg negative h]
  refine rat?_of_value (d.roundNumeral negative) (by simp) rfl
    (value_eq_of_digits (k := d.exponent.toNat + 1) ?_ ?_)
  · have hzeros : Nat.toDigits 10 d.digits ++ List.replicate d.exponent.toNat '0' ++ ['0'] =
        Nat.toDigits 10 d.digits ++ List.replicate (d.exponent.toNat + 1) '0' := by
      rw [List.append_assoc, List.replicate_succ']
    rw [roundNumeral, hzeros, List.filterMap_append, ofDigits_append, ofDigits_toDigits,
      filterMap_zeros, ofDigits_zeros, List.length_replicate, Nat.add_zero]
  · simp [roundNumeral]
    omega

private theorem rat?_positional_of_neg (negative : Bool) (h : d.exponent < 0) :
    rat? ((if negative then "-" else "") ++ d.positional) =
      some (if negative then -d.value else d.value) := by
  rw [positional_of_neg negative h]
  refine rat?_of_value (d.pointNumeral negative) (by simp) rfl (value_eq_of_digits (k := 0) ?_ ?_)
  · rw [pointNumeral, List.take_append_drop, pow_zero, Nat.mul_one]
    exact ofDigits_zeros_append _ _
  · have hlt := d.lt_length_padded
    simp only [pointNumeral, List.length_drop]
    omega

private theorem rat?_scientific (negative : Bool) (d : Decimal) :
    rat? ((if negative then "-" else "") ++ d.scientific) =
      some (if negative then -d.value else d.value) := by
  rw [scientific_eq]
  refine rat?_of_value (d.leadingNumeral negative) ?_ d.exponent_powerText
    (value_eq_of_digits (k := 0) ?_ ?_)
  · intro c hc
    cases hc
    decide
  · rw [leadingNumeral, List.take_append_drop, ofDigits_toDigits, pow_zero, Nat.mul_one]
  · have := Nat.length_toDigits_pos (b := 10) (n := d.digits)
    simp only [leadingNumeral, List.length_drop, leading, length]
    omega

end Decimal

/-! ## Doubles in writing -/

private theorem Decimal.value_nonneg (d : Decimal) : 0 ≤ d.value :=
  mul_nonneg (Nat.cast_nonneg _) (zpow_nonneg (by norm_num) _)

namespace Double

/-- The rational that the shortest decimal of a finite double denotes. -/
def written? (x : Double) : Option ℚ :=
  x.shortest?.map fun d ↦ if x.isNegative then -d.value else d.value

/-- **A double in writing** is read as the rational that its shortest decimal denotes; one that is
not finite is not read at all. -/
theorem rat?_toText (x : Double) : Literal.rat? x.toText = x.written? := by
  cases x with
  | nan payload => exact (by decide : Literal.rat? "nan" = none)
  | infinite negative => cases negative <;> decide
  | finite negative s e =>
    rw [toText]
    simp only [written?, shortest?, Option.map_some]
    generalize (if s = 0 then (⟨0, 0⟩ : Decimal) else Decimal.shortest s e) = d
    split
    case isTrue hzero =>
      have hvalue : d.value = 0 := by rw [Decimal.value, hzero, Nat.cast_zero, zero_mul]
      rw [hvalue, neg_zero, ite_self]
      cases negative with
      | false => exact (by decide : Literal.rat? ("" ++ "0.0") = some 0)
      | true => exact (by decide : Literal.rat? ("-" ++ "0.0") = some 0)
    case isFalse hpos =>
      split
      · by_cases h : 0 ≤ d.exponent
        · rw [if_pos h]
          exact Decimal.rat?_positional_of_nonneg negative h
        · rw [if_neg h]
          exact Decimal.rat?_positional_of_neg negative (not_le.mp h)
      · exact Decimal.rat?_scientific negative d

/-! ## Rationals by way of doubles -/

variable {q w : ℚ} {s : ℕ} {e : ℤ}

private theorem isNegative_ofRatio (negative : Bool) (num den : ℕ) :
    (ofRatio negative num den).isNegative = negative := by
  rw [ofRatio]
  dsimp only
  split_ifs <;> rfl

/-- What becomes of a positive rational that is rounded to a double and written down. -/
theorem written?_ofRat (hq : 0 < q) (h : (ofRat q).written? = some w) : ∃ s e,
    Canonical s e ∧ InReach s e q ∧
      (s = 0 ∧ w = 0 ∨ 0 < s ∧ w = (Decimal.shortest s e).value ∧ InReach s e w) := by
  rcases ofRat_spec hq with ⟨s, e, hfinite, hcanonical, hreach⟩ | ⟨hinfinite, -⟩
  · refine ⟨s, e, hcanonical, hreach, ?_⟩
    rw [hfinite] at h
    rcases Nat.eq_zero_or_pos s with rfl | hs
    · cases h
      exact Or.inl ⟨rfl, by simp [Decimal.value]⟩
    · have hw : w = (Decimal.shortest s e).value := by
        rw [written?, shortest?, if_neg hs.ne'] at h
        exact (Option.some.inj h).symm
      exact Or.inr ⟨hs, hw, hw ▸ Decimal.shortest_inReach hs hcanonical.lt e⟩
  · rw [hinfinite] at h
    cases h

theorem written?_nonpos (hq : q ≤ 0) (h : (ofRat q).written? = some w) : w ≤ 0 := by
  rcases hq.eq_or_lt with rfl | hneg
  · cases h
    simp [Decimal.value]
  · obtain ⟨d, -, rfl⟩ := Option.map_eq_some_iff.mp h
    have hsign : (ofRat q).isNegative = true := by
      rw [ofRat, isNegative_ofRatio]
      exact decide_eq_true hneg
    rw [if_pos hsign]
    exact neg_nonpos.mpr d.value_nonneg

theorem InReach.pos (hs : 0 < s) (h : InReach s e q) : 0 < q := by
  have hlow := (abs_le.mp h.abs_sub_le).1
  have hone : (1 : ℚ) ≤ s := by exact_mod_cast hs
  have hone := mul_le_mul_of_nonneg_right hone (two_zpow_pos e).le
  linarith [two_zpow_pos e]

/-- A rational is not so small that it is rounded to zero, nor so large that it is rounded to
infinity. -/
def InRange (q : ℚ) : Prop := halfLeast < q ∧ q < limit

theorem InRange.pos (h : InRange q) : 0 < q :=
  (div_pos (two_zpow_pos minExponent) two_pos).trans h.1

theorem inRange_of_one_le (hone : 1 ≤ q) (h : q ≤ 2 ^ 52) : InRange q := by
  constructor
  · have hleast : (2 : ℚ) ^ minExponent ≤ 1 := zpow_le_one_of_nonpos₀ one_le_two (by decide)
    rw [halfLeast]
    linarith
  · have hgreatest : (1 : ℚ) ≤ 2 ^ maxExponent := one_le_zpow₀ one_le_two (by decide)
    rw [limit]
    linarith

/-- A rational survives as a positive number exactly if it is in range. -/
theorem exists_written?_pos_iff :
    (∃ w, (ofRat q).written? = some w ∧ 0 < w) ↔ InRange q := by
  constructor
  · rintro ⟨w, hw, hpos⟩
    have hq : 0 < q := lt_of_not_ge fun hq ↦ (written?_nonpos hq hw).not_gt hpos
    obtain ⟨s, e, hcanonical, hreach, ⟨-, rfl⟩ | ⟨hs, -, -⟩⟩ := written?_ofRat hq hw
    · exact absurd hpos (lt_irrefl 0)
    · exact ⟨(hcanonical.pos_iff hreach).mp hs, hcanonical.lt_limit hreach⟩
  · intro h
    rcases ofRat_spec h.pos with ⟨s, e, hfinite, hcanonical, hreach⟩ | ⟨-, hlarge⟩
    · have hs : 0 < s := (hcanonical.pos_iff hreach).mpr h.1
      refine ⟨(Decimal.shortest s e).value, ?_, ?_⟩
      · rw [hfinite, written?, shortest?, if_neg hs.ne']
        rfl
      · exact (Decimal.shortest_inReach hs hcanonical.lt e).pos hs
    · exact absurd h.2 hlarge.not_gt

/-- A rational is large enough for a full significand. -/
def Full (q : ℚ) : Prop := leastFull ≤ q

/-- A rational has at most fifteen decimal digits, and is large enough for a full significand. -/
def Short (q : ℚ) : Prop := Full q ∧ ∃ d : Decimal, d.digits < 10 ^ 15 ∧ d.value = q

theorem Full.pos (h : Full q) : 0 < q :=
  (mul_pos (by norm_num) (two_zpow_pos minExponent)).trans_le h

theorem full_of_one_le (h : 1 ≤ q) : Full q := by
  refine le_trans ?_ h
  rw [leastFull, ← zpow_natCast, ← zpow_add₀ two_ne_zero]
  exact zpow_le_one_of_nonpos₀ one_le_two (by decide)

theorem written?_of_full (hq : Full q) (h : (ofRat q).written? = some w) : ∃ s e,
    2 ^ 52 ≤ s ∧ InReach s e q ∧ w = (Decimal.shortest s e).value ∧ InReach s e w := by
  obtain ⟨s, e, hcanonical, hreach, hcases⟩ := written?_ofRat hq.pos h
  have hfull := hcanonical.full_of_le hreach hq
  obtain ⟨-, hvalue, hw⟩ := hcases.resolve_left (by omega)
  exact ⟨s, e, hfull, hreach, hvalue, hw⟩

/-- Both roundings together lose at most one unit in the last place. -/
theorem abs_written?_sub_le (hq : Full q) (h : (ofRat q).written? = some w) :
    |w - q| ≤ q / 2 ^ 51 := by
  obtain ⟨s, e, hfull, hreach, -, hw⟩ := written?_of_full hq h
  have hpow := two_zpow_pos e
  have hfull : (2 ^ 52 : ℚ) ≤ s := by exact_mod_cast hfull
  have hfull := mul_le_mul_of_nonneg_right hfull hpow.le
  obtain ⟨hq₁, hq₂⟩ := abs_le.mp hreach.abs_sub_le
  obtain ⟨hw₁, hw₂⟩ := abs_le.mp hw.abs_sub_le
  rw [abs_le]
  constructor <;> linarith

/-- A short rational comes back as it was. -/
theorem written?_of_short (hq : Short q) (h : (ofRat q).written? = some w) : w = q := by
  obtain ⟨hq, d, hshort, rfl⟩ := hq
  obtain ⟨s, e, hfull, hreach, rfl, -⟩ := written?_of_full hq h
  exact Decimal.shortest_of_short hfull hreach hshort

end Double

end Datapath
