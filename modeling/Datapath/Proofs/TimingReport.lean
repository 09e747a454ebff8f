import Datapath.Proofs.Text
import Datapath.TimingReport
import Mathlib.Data.List.TakeDrop
import Mathlib.Data.List.TakeWhile

/-!
# The summary table of a timing report

Where a report has a summary table, its slack is the one that counts, whatever else the report says.
The scan looks at one line at a time. Lines before the header are passed over because they are no
headers, the lines below it because they are blank or rules, and the row ends the scan. So neither
what comes before nor what comes after can lead to another number, and the slacks of single paths
are not even asked for.

The patterns are stated here by what a line is made of. The code matches them from left to right and
never has to take anything back: the columns start with a letter, and a numeral with a digit or a
minus, so the blanks before them have only one end.
-/

namespace Datapath.TimingReport

open Text Literal

variable {line header row word rest : List Char}

/-! ## Headers -/

/-- A line starts with the names of the first two columns, with blanks before and between them. -/
def HeaderLine (line : List Char) : Prop :=
  ∃ blanks gap rest, line = blanks ++ "WNS(ns)".toList ++ gap ++ "TNS(ns)".toList ++ rest ∧
    (∀ c ∈ blanks, isBlank c = true) ∧ gap ≠ [] ∧ ∀ c ∈ gap, isBlank c = true

theorem after?_eq_some_iff : after? word line = some rest ↔ line = word ++ rest := by
  rw [after?]
  constructor
  · intro h
    split at h
    · obtain ⟨tail, rfl⟩ := List.isPrefixOf_iff_prefix.mp ‹_›
      rw [List.drop_left, Option.some_inj] at h
      rw [h]
    · cases h
  · rintro rfl
    rw [if_pos (List.isPrefixOf_iff_prefix.mpr (List.prefix_append word rest)), List.drop_left]

theorem skipBlanks_append {blanks : List Char} (hblanks : ∀ c ∈ blanks, isBlank c = true)
    (hrest : ∀ c ∈ rest.head?, isBlank c = false) : skipBlanks (blanks ++ rest) = rest := by
  rw [skipBlanks, List.dropWhile_append_of_pos hblanks]
  rcases rest with _ | ⟨c, rest⟩
  · rfl
  · simp [hrest c rfl]

theorem exists_blanks_append_skipBlanks (line : List Char) :
    ∃ blanks, line = blanks ++ skipBlanks line ∧ ∀ c ∈ blanks, isBlank c = true :=
  ⟨line.takeWhile isBlank, List.takeWhile_append_dropWhile.symm, fun _ ↦ List.mem_takeWhile_imp⟩

theorem isHeader_iff : isHeader line = true ↔ HeaderLine line := by
  constructor
  · intro h
    rw [isHeader] at h
    split at h
    case h_1 c tail hfirst =>
      rw [Bool.and_eq_true] at h
      obtain ⟨hblank, hsome⟩ := h
      obtain ⟨rest, hsecond⟩ := Option.isSome_iff_exists.mp hsome
      obtain ⟨blanks, hline, hblanks⟩ := exists_blanks_append_skipBlanks line
      obtain ⟨gap, htail, hgap⟩ := exists_blanks_append_skipBlanks tail
      refine ⟨blanks, c :: gap, rest, ?_, hblanks, List.cons_ne_nil c gap,
        List.forall_mem_cons.mpr ⟨hblank, hgap⟩⟩
      rw [hline, after?_eq_some_iff.mp hfirst, htail, after?_eq_some_iff.mp hsecond]
      simp only [List.append_assoc, List.cons_append]
    case h_2 => cases h
  · rintro ⟨blanks, gap, rest, rfl, hblanks, hne, hgap⟩
    obtain ⟨c, gap, rfl⟩ := List.exists_cons_of_ne_nil hne
    rw [List.forall_mem_cons] at hgap
    -- neither name starts with a blank
    have hfirst (tail : List Char) :
        skipBlanks (blanks ++ ("WNS(ns)".toList ++ tail)) = "WNS(ns)".toList ++ tail :=
      skipBlanks_append hblanks fun d hd ↦ by cases hd; decide
    have hsecond (tail : List Char) :
        skipBlanks (gap ++ ("TNS(ns)".toList ++ tail)) = "TNS(ns)".toList ++ tail :=
      skipBlanks_append hgap.2 fun d hd ↦ by cases hd; decide
    simp only [List.append_assoc]
    rw [isHeader, hfirst, after?_eq_some_iff.mpr rfl]
    simp only [List.cons_append]
    rw [hsecond, after?_eq_some_iff.mpr rfl, hgap.1]
    rfl

instance : DecidablePred HeaderLine := fun line ↦
  decidable_of_iff (isHeader line = true) isHeader_iff

/-! ## Rules and rows -/

/-- A line is blank, or its first field is a rule of dashes. -/
def Separator (line : List Char) : Prop :=
  line.all isBlank = true ∨ ∃ rule, FirstField line rule ∧ rule.all (· = '-') = true

private theorem isRule_of_separator (h : Separator line) : isRule line = true := by
  rcases h with hblank | ⟨rule, hfirst, hdashes⟩
  · rw [isRule, fields_of_blank hblank]
  · obtain ⟨more, hfields⟩ := hfirst.fields_eq
    rw [isRule, hfields]
    exact hdashes

theorem span_isDigit {digits : List Char} (hdigits : ∀ c ∈ digits, isDigit c = true)
    (hrest : ∀ c ∈ rest.head?, isDigit c = false) :
    (digits ++ rest).span isDigit = (digits, rest) := by
  have hstop : rest.takeWhile isDigit = [] ∧ rest.dropWhile isDigit = rest := by
    rcases rest with _ | ⟨c, rest⟩
    · exact ⟨rfl, rfl⟩
    · simp [hrest c rfl]
  rw [List.span_eq_takeWhile_dropWhile, List.takeWhile_append_of_pos hdigits,
    List.dropWhile_append_of_pos hdigits, hstop.1, hstop.2, List.append_nil]

private theorem leadingDecimal?_minus {cs : List Char} (h : ∀ rest, cs ≠ '-' :: rest) :
    leadingDecimal? ('-' :: cs) = (leadingDecimal? cs).map (Prod.map ('-' :: ·) id) := by
  rw [leadingDecimal?, leadingDecimal?]
  · split
    · rfl
    · split <;> rfl
    · rfl
  · exact h

theorem leadingDecimal?_unsigned (n : Numeral) :
    leadingDecimal? n.unsigned = some (n.unsigned, []) := by
  obtain ⟨first, whole, hwhole⟩ := List.exists_cons_of_ne_nil n.whole_ne_nil
  have hpart : n.part.span isDigit = (n.part, []) := by
    rw [← span_isDigit n.part_digits (by simp), List.append_nil]
  rw [leadingDecimal?, Numeral.unsigned]
  · by_cases hnone : n.part = []
    · rw [if_pos hnone, span_isDigit n.whole_digits (by simp), hwhole]
      simp
    · obtain ⟨d, part, hdigits⟩ := List.exists_cons_of_ne_nil hnone
      rw [if_neg hnone, span_isDigit n.whole_digits fun c hc ↦ by cases hc; decide, hwhole]
      simp only [hpart]
      simp [hdigits]
  · exact n.unsigned_ne (by decide)

private theorem leadingDecimal?_text (n : Numeral) :
    leadingDecimal? n.text = some (n.text, []) := by
  rw [Numeral.text]
  cases n.negative with
  | true =>
    rw [if_pos rfl, leadingDecimal?_minus (n.unsigned_ne (by decide)), leadingDecimal?_unsigned]
    rfl
  | false => exact leadingDecimal?_unsigned n

private theorem fieldValue?_text (n : Numeral) : fieldValue? n.text = some n.value := by
  rw [fieldValue?, leadingDecimal?_text]
  simp [decimalValue, n.double?_text]

private theorem isRule_of_numeral {n : Numeral} (h : FirstField line n.text) :
    isRule line = false := by
  obtain ⟨more, hfields⟩ := h.fields_eq
  obtain ⟨c, rest, hunsigned, hdigit⟩ := n.exists_unsigned_eq
  have hmem : c ∈ n.text := by
    rw [Numeral.text, hunsigned]
    split <;> simp
  rw [isRule, hfields, List.all_eq_false]
  refine ⟨c, hmem, ?_⟩
  rw [decide_eq_true_eq]
  exact ne_of_isDigit hdigit (by decide)

/-! ## The scan -/

private theorem summarySlack?_append {earlier : List (List Char)}
    (h : ∀ line ∈ earlier, ¬ HeaderLine line) (later : List (List Char)) :
    summarySlack? (earlier ++ later) = summarySlack? later := by
  induction earlier with
  | nil => rfl
  | cons line earlier ih =>
    rw [List.forall_mem_cons, ← isHeader_iff, Bool.not_eq_true] at h
    rw [List.cons_append, summarySlack?, h.1, ih h.2]

private theorem rowSlack?_append {sep : List (List Char)} (hsep : ∀ line ∈ sep, Separator line)
    {n : Numeral} (hrow : FirstField row n.text) (later : List (List Char)) :
    rowSlack? (sep ++ row :: later) = some n.value := by
  obtain ⟨more, hfields⟩ := hrow.fields_eq
  have hskip : (sep ++ row :: later).dropWhile isRule = row :: later := by
    rw [List.dropWhile_append_of_pos fun line hline ↦ isRule_of_separator (hsep line hline),
      List.dropWhile_cons_of_neg (by simp [isRule_of_numeral hrow])]
  rw [rowSlack?, hskip]
  simp [hfields, fieldValue?_text]

/-- **The summary table takes precedence.** In a report with a header, lines that are blank or rules
below it, and a row that starts with a numeral, the worst slack is the value of that numeral. Before
the header there may be anything but another header, and after the numeral anything at all. -/
theorem summary_takes_precedence (pre sep post : List (List Char)) (n : Numeral)
    (hbreaks : ∀ line ∈ pre ++ header :: sep ++ [row], line.any isLineBreak = false)
    (hpre : ∀ line ∈ pre, ¬ HeaderLine line) (hheader : HeaderLine header)
    (hsep : ∀ line ∈ sep, Separator line) (hrow : FirstField row n.text) :
    worstSlack? (['\n'].intercalate (pre ++ header :: sep ++ row :: post)) = some n.value := by
  have hne : row ≠ [] := by
    rintro rfl
    obtain ⟨blanks, rest, heq, -, hfield, -⟩ := hrow
    simp [hfield] at heq
  rw [worstSlack?, lines_intercalate hbreaks hne, List.append_assoc, summarySlack?_append hpre,
    List.cons_append, summarySlack?, isHeader_iff.mpr hheader, rowSlack?_append hsep hrow]
  rfl

/-- The numeral -1.234. -/
def narrowMiss : Numeral where
  negative := true
  whole := ['1']
  part := ['2', '3', '4']
  whole_ne_nil := by decide
  whole_digits := List.all_eq_true.mp (by decide)
  part_digits := List.all_eq_true.mp (by decide)

/-- A path with a better slack before the table and one with a worse slack after it make no
difference. -/
theorem narrowMiss_takes_precedence :
    worstSlack? (['\n'].intercalate ["Slack (MET) : 2.5ns".toList, " WNS(ns)  TNS(ns)".toList,
      " -------  -------".toList, [], "  -1.234  -10.4  12".toList,
      "Slack (VIOLATED) : -7.0ns".toList]) = some (Double.ofRat (-1234 / 1000)) := by
  have hvalue : narrowMiss.value = Double.ofRat (-1234 / 1000) := by decide +kernel
  have hheader : HeaderLine " WNS(ns)  TNS(ns)".toList := by decide
  have hrule : Separator " -------  -------".toList :=
    Or.inr ⟨"-------".toList, ⟨[' '], "  -------".toList, by decide, by decide, by decide,
      by decide, by decide⟩, by decide⟩
  have hrow : FirstField "  -1.234  -10.4  12".toList narrowMiss.text :=
    ⟨[' ', ' '], "  -10.4  12".toList, by decide, by decide, by decide, by decide, by decide⟩
  rw [← hvalue]
  exact summary_takes_precedence ["Slack (MET) : 2.5ns".toList] [" -------  -------".toList, []]
    ["Slack (VIOLATED) : -7.0ns".toList] narrowMiss (by decide) (by decide) hheader
    (List.forall_mem_cons.mpr ⟨hrule, by simp [Separator]⟩) hrow

end Datapath.TimingReport
