import Datapath.Text.Lines
import Datapath.Text.Literal
import Mathlib.Data.List.SplitBy

/-!
# Lines, fields and numerals

How a text that was put together comes apart again. Lines joined by line feeds are found again if no
other boundary is hidden in them. A field is found between the blanks around it. A numeral, which is
digits of any script with an optional minus and an optional point, is read as the decimal that it
spells, and as a rational it is read together with a power of ten after it.

A class of characters is a list of ranges of code points. That two classes have nothing in common is
therefore a fact about finitely many numbers, and all that is known about digits beyond their values
follows from it.
-/

namespace Datapath

namespace Text

/-! ## Digits -/

variable {c : Char} {line field rest : List Char}

theorem exists_zero_of_isDigit (h : isDigit c = true) :
    ∃ base ∈ digitZeros, base ≤ c.toNat ∧ c.toNat < base + 10 := by
  obtain ⟨value, hvalue⟩ := Option.isSome_iff_exists.mp h
  obtain ⟨base, hbase, -⟩ := Option.map_eq_some_iff.mp hvalue
  have hrange := List.find?_some hbase
  rw [Bool.and_eq_true, decide_eq_true_eq, decide_eq_true_eq] at hrange
  exact ⟨base, List.mem_of_find?_eq_some hbase, hrange⟩

theorem isBlank_of_isDigit (h : isDigit c = true) : isBlank c = false := by
  obtain ⟨base, hbase, hle, hlt⟩ := exists_zero_of_isDigit h
  have hapart : ∀ base ∈ digitZeros, ∀ range ∈ blankRanges,
      range.2 < base ∨ base + 10 ≤ range.1 := by decide
  rw [isBlank, List.any_eq_false]
  intro range hrange
  have hcase := hapart base hbase range hrange
  rw [Bool.and_eq_true, decide_eq_true_eq, decide_eq_true_eq]
  omega

private theorem toLower_of_isDigit (h : isDigit c = true) : c.toLower = c := by
  obtain ⟨base, hbase, hle, hlt⟩ := exists_zero_of_isDigit h
  have hapart : ∀ base ∈ digitZeros, base + 10 ≤ 'A'.toNat ∨ 'Z'.toNat < base := by decide
  have hcase := hapart base hbase
  refine dif_neg ?_
  rintro ⟨hA, hZ⟩
  have hA : 'A'.toNat ≤ c.toNat := hA
  have hZ : c.toNat ≤ 'Z'.toNat := hZ
  omega

theorem ne_of_isDigit (h : isDigit c = true) {d : Char} (hd : isDigit d = false) : c ≠ d := by
  rintro rfl
  rw [h] at hd
  cases hd

theorem digitValue?_of_isDigit (h : c.isDigit = true) : digitValue? c = some (c.toNat - 48) := by
  have hrange : 48 ≤ c.toNat ∧ c.toNat ≤ 57 := by
    rw [Char.isDigit, Bool.and_eq_true, decide_eq_true_eq, decide_eq_true_eq] at h
    exact h
  rw [digitValue?, digitZeros, List.find?_cons_of_pos]
  · rfl
  · rw [Bool.and_eq_true, decide_eq_true_eq, decide_eq_true_eq]
    omega

theorem isDigit_of_mem_toDigits {n : Nat} (h : c ∈ Nat.toDigits 10 n) : isDigit c = true := by
  rw [isDigit, digitValue?_of_isDigit (Nat.isDigit_of_mem_toDigits (by decide) (Nat.le_refl 10) h)]
  rfl

theorem eq_minus_or_isDigit_of_mem_toString {n : Int} (h : c ∈ (toString n).toList) :
    c = '-' ∨ isDigit c = true := by
  cases n with
  | ofNat n =>
    have h : c ∈ (toString n).toList := h
    rw [Nat.toString_eq_ofList_toDigits, String.toList_ofList] at h
    exact Or.inr (isDigit_of_mem_toDigits h)
  | negSucc n =>
    have h : c ∈ ("-" ++ toString (n + 1)).toList := h
    rw [String.toList_append, Nat.toString_eq_ofList_toDigits] at h
    rcases List.mem_append.mp h with h | h
    · exact Or.inl (List.mem_singleton.mp h)
    · rw [String.toList_ofList] at h
      exact Or.inr (isDigit_of_mem_toDigits h)

/-! ## Lines -/

private theorem lines_newline (rest : List Char) : lines ('\n' :: rest) = [] :: lines rest := by
  simp [lines, isLineBreak]

theorem lines_cons (h : isLineBreak c = false) {more : List (List Char)}
    (hrest : lines rest = line :: more) : lines (c :: rest) = (c :: line) :: more := by
  have hreturn : c ≠ '\r' := by
    rintro rfl
    cases h
  rw [lines, hrest, h]
  · rfl
  · exact fun _ hc ↦ absurd hc hreturn

private theorem lines_singleton (h : isLineBreak c = false) : lines [c] = [[c]] := by
  rw [lines, h]
  · rfl
  · simp

/-- A line without boundaries ends at the line feed after it. -/
theorem lines_append (h : line.any isLineBreak = false) (rest : List Char) :
    lines (line ++ '\n' :: rest) = line :: lines rest := by
  induction line with
  | nil => exact lines_newline rest
  | cons c line ih =>
    rw [List.any_cons, Bool.or_eq_false_iff] at h
    exact lines_cons h.1 (ih h.2)

private theorem lines_eq_singleton (h : line.any isLineBreak = false) (hne : line ≠ []) :
    lines line = [line] := by
  induction line with
  | nil => exact absurd rfl hne
  | cons c line ih =>
    rw [List.any_cons, Bool.or_eq_false_iff] at h
    rcases line with _ | ⟨next, line⟩
    · exact lines_singleton h.1
    · exact lines_cons h.1 (ih h.2 (List.cons_ne_nil next line))

/-- Joined lines are found again, up to one that is not empty. -/
theorem lines_intercalate {earlier : List (List Char)}
    (h : ∀ l ∈ earlier ++ [line], l.any isLineBreak = false) (hne : line ≠ [])
    (later : List (List Char)) :
    lines (['\n'].intercalate (earlier ++ line :: later)) =
      earlier ++ line :: lines (['\n'].intercalate later) := by
  induction earlier with
  | nil =>
    have hline := h line (List.mem_singleton_self line)
    rcases later with _ | ⟨next, later⟩
    · rw [List.nil_append, List.intercalate_singleton, lines_eq_singleton hline hne]
      rfl
    · rw [List.nil_append, List.intercalate_cons_cons, List.append_assoc, List.singleton_append,
        lines_append hline]
      rfl
  | cons first earlier ih =>
    rw [List.cons_append, List.forall_mem_cons] at h
    obtain ⟨next, others, heq⟩ : ∃ next others, earlier ++ line :: later = next :: others := by
      cases earlier <;> simp
    rw [List.cons_append, heq, List.intercalate_cons_cons, List.append_assoc,
      List.singleton_append, lines_append h.1, ← heq, ih h.2]
    rfl

/-! ## Fields -/

/-- A field stands first in a line: only blanks are before it, and a blank or nothing after it. -/
def FirstField (line field : List Char) : Prop :=
  ∃ blanks rest, line = blanks ++ field ++ rest ∧ blanks.all isBlank = true ∧
    field ≠ [] ∧ field.any isBlank = false ∧ rest.head?.all isBlank = true

/-- Where blanks meet other characters, a line may be cut. -/
theorem fields_append {left right : List Char}
    (h : ∀ a ∈ left.getLast?, ∀ b ∈ right.head?, isBlank a ≠ isBlank b) :
    fields (left ++ right) = fields left ++ fields right := by
  rw [fields, List.splitBy_append, List.filter_append]
  · rfl
  · intro a ha b hb
    exact beq_eq_false_iff_ne.mpr (h a ha b hb)

theorem fields_of_blank (h : line.all isBlank = true) : fields line = [] := by
  rw [List.all_eq_true] at h
  rw [fields, List.filter_eq_nil_iff]
  intro run hrun
  obtain ⟨c, hc⟩ := List.exists_mem_of_ne_nil run (List.ne_nil_of_mem_splitBy hrun)
  have hmem : c ∈ line := by
    rw [← List.flatten_splitBy (fun a b ↦ isBlank a == isBlank b) line]
    exact List.mem_flatten.mpr ⟨run, hrun, hc⟩
  have hany : run.any isBlank = true := List.any_eq_true.mpr ⟨c, hc, h c hmem⟩
  simp [hany]

private theorem fields_of_solid (h : field.any isBlank = false) (hne : field ≠ []) :
    fields field = [field] := by
  have hsolid : ∀ c ∈ field, isBlank c = false := by simpa using h
  have hchain : field.IsChain fun a b ↦ isBlank a == isBlank b := by
    apply List.Pairwise.isChain
    apply List.pairwise_of_forall_mem_list
    intro a ha b hb
    rw [hsolid a ha, hsolid b hb]
    rfl
  rw [fields, List.splitBy_of_isChain hne hchain, List.filter_singleton, h]
  rfl

theorem FirstField.fields_eq (h : FirstField line field) : ∃ more, fields line = field :: more := by
  obtain ⟨blanks, rest, rfl, hblanks, hne, hfield, hrest⟩ := h
  have hsolid : ∀ c ∈ field, isBlank c = false := by simpa using hfield
  refine ⟨fields rest, ?_⟩
  rw [List.append_assoc, fields_append, fields_append, fields_of_blank hblanks,
    fields_of_solid hfield hne]
  · rfl
  · intro a ha b hb
    rw [Option.mem_def.mp hb, Option.all_some] at hrest
    rw [hsolid a (List.mem_of_getLast? ha), hrest]
    decide
  · intro a ha b hb
    rw [List.head?_append_of_ne_nil field hne] at hb
    rw [List.all_eq_true.mp hblanks a (List.mem_of_getLast? ha),
      hsolid b (List.mem_of_head? hb)]
    decide

end Text

namespace Literal

open Text

variable {c : Char} {digits rest suffix cs : List Char}

/-! ## Numerals -/

/-- A decimal as it is written: a minus or none, digits, and a point with more digits or none. -/
structure Numeral where
  /-- Whether there is a minus. -/
  negative : Bool
  /-- The digits before the point. -/
  whole : List Char
  /-- The digits after the point; without any, there is no point. -/
  part : List Char
  whole_ne_nil : whole ≠ []
  whole_digits : ∀ c ∈ whole, isDigit c = true
  part_digits : ∀ c ∈ part, isDigit c = true

namespace Numeral

/-- A numeral without its minus. -/
def unsigned (n : Numeral) : List Char := n.whole ++ if n.part = [] then [] else '.' :: n.part

/-- A numeral in writing. -/
def text (n : Numeral) : List Char := if n.negative then '-' :: n.unsigned else n.unsigned

/-- The double nearest to the decimal that a numeral spells. -/
def value (n : Numeral) : Double :=
  Double.ofDecimal n.negative
    ⟨ofDigits ((n.whole ++ n.part).filterMap digitValue?), -n.part.length⟩

theorem exists_unsigned_eq (n : Numeral) : ∃ c rest, n.unsigned = c :: rest ∧ isDigit c = true := by
  obtain ⟨c, whole, hwhole⟩ := List.exists_cons_of_ne_nil n.whole_ne_nil
  refine ⟨c, _, by rw [unsigned, hwhole, List.cons_append], n.whole_digits c (by simp [hwhole])⟩

theorem unsigned_ne (n : Numeral) {c : Char} (hc : isDigit c = false) (rest : List Char) :
    n.unsigned ≠ c :: rest := by
  obtain ⟨d, others, hunsigned, hdigit⟩ := n.exists_unsigned_eq
  rw [hunsigned]
  exact fun heq ↦ ne_of_isDigit hdigit hc (List.cons.inj heq).1

theorem isBlank_of_mem_text (n : Numeral) : ∀ c ∈ n.text, isBlank c = false := by
  have hunsigned : ∀ c ∈ n.unsigned, isBlank c = false := by
    rw [unsigned, List.forall_mem_append]
    refine ⟨fun c hc ↦ isBlank_of_isDigit (n.whole_digits c hc), ?_⟩
    split
    · simp
    · rw [List.forall_mem_cons]
      exact ⟨by decide, fun c hc ↦ isBlank_of_isDigit (n.part_digits c hc)⟩
  rw [text]
  split
  · rw [List.forall_mem_cons]
    exact ⟨by decide, hunsigned⟩
  · exact hunsigned

end Numeral

/-! ## Reading numerals -/

theorem digitValue?_eq_none (h : isDigit c = false) : digitValue? c = none :=
  Option.not_isSome_iff_eq_none.mp (by simpa [isDigit] using h)

theorem moreDigits_append (hdigits : ∀ c ∈ digits, isDigit c = true)
    (hrest : ∀ c ∈ rest.head?, isDigit c = false ∧ c ≠ '_') :
    moreDigits (digits ++ rest) = (digits.filterMap digitValue?, rest) := by
  induction digits with
  | nil =>
    rcases rest with _ | ⟨c, rest⟩
    · rfl
    · obtain ⟨hc, hunderscore⟩ := hrest c rfl
      rw [List.nil_append, moreDigits, digitValue?_eq_none hc]
      · rfl
      · exact fun _ _ heq ↦ absurd heq hunderscore
  | cons c digits ih =>
    rw [List.forall_mem_cons] at hdigits
    obtain ⟨value, hvalue⟩ := Option.isSome_iff_exists.mp hdigits.1
    rw [List.cons_append, moreDigits, hvalue, ih hdigits.2, List.filterMap_cons_some hvalue]
    exact fun _ _ heq ↦ absurd heq (ne_of_isDigit hdigits.1 (by decide))

theorem digitRun_append (hdigits : ∀ c ∈ digits, isDigit c = true)
    (hrest : ∀ c ∈ rest.head?, isDigit c = false ∧ c ≠ '_') :
    digitRun (digits ++ rest) = (digits.filterMap digitValue?, rest) := by
  rcases digits with _ | ⟨c, digits⟩
  · rcases rest with _ | ⟨c, rest⟩
    · rfl
    · rw [List.nil_append, digitRun, digitValue?_eq_none (hrest c rfl).1]
      rfl
  · rw [List.forall_mem_cons] at hdigits
    obtain ⟨value, hvalue⟩ := Option.isSome_iff_exists.mp hdigits.1
    rw [List.cons_append, digitRun, hvalue, moreDigits_append hdigits.2 hrest,
      List.filterMap_cons_some hvalue]

theorem length_filterMap_digits (hdigits : ∀ c ∈ digits, isDigit c = true) :
    (digits.filterMap digitValue?).length = digits.length := by
  induction digits with
  | nil => rfl
  | cons c digits ih =>
    rw [List.forall_mem_cons] at hdigits
    obtain ⟨value, hvalue⟩ := Option.isSome_iff_exists.mp hdigits.1
    rw [List.filterMap_cons_some hvalue, List.length_cons, List.length_cons, ih hdigits.2]

private theorem trim_of_solid (h : ∀ c ∈ cs, isBlank c = false) : trim cs = cs := by
  have hkeep : ∀ l : List Char, (∀ c ∈ l, isBlank c = false) →
      l.dropWhile (fun c ↦ isBlank c && !isSeparator c) = l := by
    intro l hl
    rcases l with _ | ⟨c, l⟩
    · rfl
    · simp [hl c List.mem_cons_self]
  rw [trim, hkeep cs h, hkeep cs.reverse fun c hc ↦ h c (List.mem_reverse.mp hc),
    List.reverse_reverse]

/-- What starts with a digit is no word. -/
theorem lower_ne {word : String} (hc : cs.head? = some c) (hdigit : isDigit c = true)
    (hword : word.toList.head?.any isDigit = false) : lower cs ≠ word := by
  rintro rfl
  rw [lower, String.toList_ofList, List.head?_map, hc, Option.map_some,
    toLower_of_isDigit hdigit, Option.any_some, hdigit] at hword
  cases hword

namespace Numeral

theorem sign_text_append (n : Numeral) (suffix : List Char) :
    sign (n.text ++ suffix) = (n.negative, n.unsigned ++ suffix) := by
  obtain ⟨c, rest, hunsigned, hdigit⟩ := n.exists_unsigned_eq
  rw [text]
  cases n.negative with
  | true => rfl
  | false =>
    rw [if_neg Bool.false_ne_true, hunsigned, List.cons_append, sign]
    · exact fun rest heq ↦ ne_of_isDigit hdigit (by decide) (List.cons.inj heq).1
    · exact fun rest heq ↦ ne_of_isDigit hdigit (by decide) (List.cons.inj heq).1

/-- A numeral may have a power of ten after it. -/
theorem magnitude?_unsigned_append (n : Numeral) (isEnd : List Char → Bool) {e : Int}
    (hsuffix : ∀ c ∈ suffix.head?, isDigit c = false ∧ c ≠ '_' ∧ c ≠ '.')
    (hexponent : exponent suffix = (e, rest)) (hend : isEnd rest = true) :
    magnitude? isEnd (n.unsigned ++ suffix) =
      some ⟨ofDigits ((n.whole ++ n.part).filterMap digitValue?), e - n.part.length⟩ := by
  have hrun : ∀ c ∈ suffix.head?, isDigit c = false ∧ c ≠ '_' :=
    fun c hc ↦ ⟨(hsuffix c hc).1, (hsuffix c hc).2.1⟩
  have hpoint : fraction suffix = (none, suffix) := by
    rw [fraction]
    rintro tail rfl
    exact (hsuffix '.' rfl).2.2 rfl
  have hwhole : (n.whole.filterMap digitValue?).isEmpty = false := by
    rw [List.isEmpty_eq_false_iff, ← List.length_pos_iff, length_filterMap_digits n.whole_digits]
    exact List.length_pos_iff.mpr n.whole_ne_nil
  rw [magnitude?, unsigned]
  by_cases hnone : n.part = []
  · rw [if_pos hnone, List.append_nil, digitRun_append n.whole_digits hrun]
    simp [hpoint, hexponent, hend, hwhole, hnone]
  · rw [if_neg hnone, List.append_assoc, List.cons_append,
      digitRun_append n.whole_digits fun c hc ↦ by cases hc; decide]
    simp [fraction, digitRun_append n.part_digits hrun, hexponent, hend, hwhole,
      length_filterMap_digits n.part_digits]

/-- A numeral is read as the decimal that it spells. -/
theorem double?_text (n : Numeral) : double? (String.ofList n.text) = some n.value := by
  obtain ⟨c, rest, hunsigned, hdigit⟩ := n.exists_unsigned_eq
  have hhead : n.unsigned.head? = some c := by rw [hunsigned, List.head?_cons]
  have hwords : ∀ word ∈ ["nan", "inf", "infinity"], lower n.unsigned ≠ word := by
    intro word hword
    refine lower_ne hhead hdigit ?_
    revert word
    decide
  simp only [List.forall_mem_cons] at hwords
  obtain ⟨hnan, hinf, hinfinity, -⟩ := hwords
  have hsign := n.sign_text_append []
  have hmagnitude := n.magnitude?_unsigned_append List.isEmpty (by simp)
    (show exponent [] = (0, []) from rfl) rfl
  rw [List.append_nil] at hmagnitude
  rw [List.append_nil, List.append_nil] at hsign
  rw [double?, String.toList_ofList, trim_of_solid n.isBlank_of_mem_text, hsign]
  simp [hnan, hinf, hinfinity, hmagnitude, value]

private theorem exists_text_eq (n : Numeral) : ∃ c rest, n.text = c :: rest := by
  obtain ⟨c, rest, hunsigned, -⟩ := n.exists_unsigned_eq
  rw [text, hunsigned]
  split
  · exact ⟨_, _, rfl⟩
  · exact ⟨_, _, rfl⟩

/-- After the digits before the point comes the point, or what follows the numeral. -/
theorem exists_digitRun_unsigned (n : Numeral)
    (hsuffix : ∀ c ∈ suffix.head?, isDigit c = false ∧ c ≠ '_') :
    ∃ tail, digitRun (n.unsigned ++ suffix) = (n.whole.filterMap digitValue?, tail) ∧
      (tail.head? = some '.' ∨ tail = suffix) := by
  rw [unsigned]
  by_cases hnone : n.part = []
  · rw [if_pos hnone, List.append_nil, digitRun_append n.whole_digits hsuffix]
    exact ⟨_, rfl, Or.inr rfl⟩
  · rw [if_neg hnone, List.append_assoc, List.cons_append,
      digitRun_append n.whole_digits fun c hc ↦ by cases hc; decide]
    exact ⟨_, rfl, Or.inl rfl⟩

/-- A numeral with a power of ten after it is read as the rational that the two spell. -/
theorem rat?_text_append (n : Numeral) {e : Int}
    (hsuffix : ∀ c ∈ suffix.head?, isDigit c = false ∧ c ≠ '_' ∧ c ≠ '.' ∧ c ≠ '/')
    (hexponent : exponent suffix = (e, [])) :
    rat? (String.ofList (n.text ++ suffix)) =
      let d : Decimal := ⟨ofDigits ((n.whole ++ n.part).filterMap digitValue?), e - n.part.length⟩
      ratio? n.negative d.ratio.1 d.ratio.2 := by
  obtain ⟨c, rest, htext⟩ := n.exists_text_eq
  have hsolid : isBlank c = false := n.isBlank_of_mem_text c (by simp [htext])
  have hblanks : (n.text ++ suffix).dropWhile isBlank = n.text ++ suffix := by
    rw [htext, List.cons_append, List.dropWhile_cons_of_neg (by simp [hsolid])]
  obtain ⟨tail, hrun, htail⟩ :=
    n.exists_digitRun_unsigned fun c hc ↦ ⟨(hsuffix c hc).1, (hsuffix c hc).2.1⟩
  have hslash : ∀ rest, tail ≠ '/' :: rest := by
    rintro rest rfl
    rcases htail with htail | rfl
    · cases htail
    · exact (hsuffix '/' rfl).2.2.2 rfl
  have hmagnitude := n.magnitude?_unsigned_append (List.all · isBlank)
    (fun c hc ↦ ⟨(hsuffix c hc).1, (hsuffix c hc).2.1, (hsuffix c hc).2.2.1⟩) hexponent rfl
  rw [rat?, String.toList_ofList, hblanks, n.sign_text_append]
  simp only [hrun]
  split
  case h_1 rest heq => exact absurd (Prod.mk.inj heq).2 (hslash rest)
  case h_2 =>
    rw [hmagnitude]
    rfl

end Numeral

end Literal

end Datapath
