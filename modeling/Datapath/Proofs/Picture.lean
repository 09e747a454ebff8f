import Datapath.Graph.Dot
import Datapath.Proofs.Text

/-!
# Reading drawings

A reader for the text of drawings. It goes through the characters once and is either outside of
quotes or inside of them; what it finds are words, quoted strings and marks, and statements made of
these. A picture is what the statements show: a title, and nodes with their labels.

A string ends at the first quote that does not come right after a backslash, and a backslash with a
quote after it denotes a quote. So escaped quotes are read as what they were, and a string that ends
with a backslash is never read as it is.
-/

namespace Datapath

namespace Drawing

open Text

/-! ## Reading -/

/-- The words, quoted strings and marks of a drawing. -/
inductive Token where
  /-- Letters up to a blank, a quote or a mark. -/
  | word (text : String)
  /-- A string between quotes. -/
  | quoted (text : String)
  /-- A bracket or a separator. -/
  | mark (c : Char)
deriving DecidableEq, Repr, Inhabited

/-- Where a reader is. -/
inductive Mode where
  /-- Outside of quotes, after the first letters of a word. -/
  | outside (word : List Char)
  /-- Inside of quotes, after the first letters of a string. -/
  | inside (value : List Char)
deriving DecidableEq, Repr, Inhabited

/-- The brackets and separators. -/
def marks : List Char := ['\x7b', '\x7d', '[', ']', ';', ',', '=']

/-- The word that has been read, unless there is none. -/
def flush (word : List Char) : List Token :=
  if word.isEmpty then [] else [.word (String.ofList word)]

/-- Reads a character. A string ends at a quote, unless that comes right after a backslash: then the
two are a quote in the string. -/
def advance : Mode → Char → List Token × Mode
  | .outside word, c =>
    if c = '"' then (flush word, .inside [])
    else if isBlank c then (flush word, .outside [])
    else if marks.contains c then (flush word ++ [.mark c], .outside [])
    else ([], .outside (word ++ [c]))
  | .inside value, c =>
    if c ≠ '"' then ([], .inside (value ++ [c]))
    else if value.getLast? = some '\\' then ([], .inside (value.dropLast ++ ['"']))
    else ([.quoted (String.ofList value)], .outside [])

/-- Reads characters. -/
def run (mode : Mode) : List Char → List Token × Mode
  | [] => ([], mode)
  | c :: cs =>
    let (first, next) := advance mode c
    let (rest, last) := run next cs
    (first ++ rest, last)

/-- Whether a token is the end of a statement. -/
def isEnd : Token → Bool
  | .mark c => c = ';' || c = '\x7b' || c = '\x7d'
  | _ => false

/-- The statements of a drawing. There are none if a string does not end. -/
def statements? (cs : List Char) : Option (List (List Token)) :=
  match run (.outside []) cs with
  | (tokens, .outside word) => some ((tokens ++ flush word).splitOnP isEnd)
  | (_, .inside _) => none

/-- The quoted value of an attribute. -/
def attribute? (name : String) : List Token → Option String
  | .word key :: .mark '=' :: .quoted value :: rest =>
    if key = name then some value else attribute? name rest
  | _ :: rest => attribute? name rest
  | [] => none

/-- The keywords that stand for defaults in place of a node. -/
def keywords : List String := ["node", "edge", "graph"]

/-- The node of a statement, with its label. -/
def nodeOf? : List Token → Option (String × String)
  | .word id :: .mark '[' :: attributes =>
    if keywords.contains id then none else (attribute? "label" attributes).map (id, ·)
  | _ => none

/-- The label of the whole drawing, if a statement gives one. -/
def titleOf? : List Token → Option String
  | .word key :: .mark '=' :: .quoted value :: _ => if key = "label" then some value else none
  | _ => none

end Drawing

/-- What a drawing shows: its title, and its nodes with their labels. -/
structure Picture where
  /-- The label of the whole drawing. -/
  title : Option String
  /-- The nodes in order, each with its label. -/
  nodes : List (String × String)
deriving DecidableEq, Repr, Inhabited

namespace Picture

open Drawing

/-- What the statements of a drawing show. -/
def ofStatements (statements : List (List Token)) : Picture :=
  ⟨statements.findSome? titleOf?, statements.filterMap nodeOf?⟩

/-- Reads characters. -/
def ofChars? (cs : List Char) : Option Picture := (statements? cs).map ofStatements

/-- Reads a drawing. -/
def read? (text : String) : Option Picture := ofChars? text.toList

end Picture

namespace Drawing

open Text

variable {cs ds value word p : List Char} {ts : List Token} {mode : Mode}

/-! ## Characters -/

private theorem run_append (mode : Mode) (cs ds : List Char) : run mode (cs ++ ds) =
    ((run mode cs).1 ++ (run (run mode cs).2 ds).1, (run (run mode cs).2 ds).2) := by
  induction cs generalizing mode with
  | nil => rfl
  | cons c cs ih => simp only [List.cons_append, run, ih, List.append_assoc]

theorem run_of_eq {mode' : Mode} (h : run mode cs = (ts, mode')) (ds : List Char) :
    run mode (cs ++ ds) = (ts ++ (run mode' ds).1, (run mode' ds).2) := by
  rw [run_append, h]

theorem run_escaped (value cs : List Char) :
    run (.inside value) (cs.flatMap fun c ↦ if c = '"' then ['\\', '"'] else [c]) =
      ([], .inside (value ++ cs)) := by
  induction cs generalizing value with
  | nil => simp [run]
  | cons c cs ih =>
    rw [List.flatMap_cons]
    by_cases hc : c = '"'
    · have hpair : run (.inside value) ['\\', '"'] = ([], .inside (value ++ ['"'])) := by
        simp [run, advance]
      rw [if_pos hc, run_of_eq hpair, ih]
      simp [hc]
    · rw [if_neg hc]
      simp [run, advance, hc, ih]

/-- A text does not end with a backslash, so that a quote after it is the end of a string. -/
def Closes (value : List Char) : Prop := value.getLast? ≠ some '\\'

theorem run_quote (hclose : Closes value) (hrun : run mode cs = (ts, .inside value)) :
    run mode (cs ++ ['"']) = (ts ++ [.quoted (String.ofList value)], .outside []) := by
  rw [run_of_eq hrun]
  simp [run, advance, show value.getLast? ≠ some '\\' from hclose]

theorem run_inside (hcs : '"' ∉ cs) (value : List Char) :
    run (.inside value) cs = ([], .inside (value ++ cs)) := by
  induction cs generalizing value with
  | nil => simp [run]
  | cons c cs ih =>
    obtain ⟨hc, hcs⟩ := not_or.mp (mt List.mem_cons.mpr hcs)
    simp [run, advance, Ne.symm hc, ih hcs]

/-- A character that can stand in a word. -/
def Plain (c : Char) : Prop := c ≠ '"' ∧ isBlank c = false ∧ marks.contains c = false

instance : DecidablePred Plain := fun c ↦
  inferInstanceAs (Decidable (c ≠ '"' ∧ isBlank c = false ∧ marks.contains c = false))

theorem run_word (hcs : ∀ c ∈ cs, Plain c) (word : List Char) :
    run (.outside word) cs = ([], .outside (word ++ cs)) := by
  induction cs generalizing word with
  | nil => simp [run]
  | cons c cs ih =>
    obtain ⟨hquote, hblank, hmark⟩ := hcs c List.mem_cons_self
    have hadvance : advance (.outside word) c = ([], .outside (word ++ [c])) := by
      rw [advance, if_neg hquote, hblank, hmark]
      rfl
    rw [run, hadvance]
    simp [ih fun d hd ↦ hcs d (List.mem_cons_of_mem _ hd)]

theorem run_break {c : Char} (hc : ¬ Plain c) (word cs : List Char) :
    run (.outside word) (c :: cs) =
      (flush word ++ (run (.outside []) (c :: cs)).1, (run (.outside []) (c :: cs)).2) := by
  have hadvance : advance (.outside word) c =
      (flush word ++ (advance (.outside []) c).1, (advance (.outside []) c).2) := by
    by_cases hquote : c = '"'
    · simp [advance, hquote, flush]
    · by_cases hblank : isBlank c = true
      · simp [advance, hquote, hblank, flush]
      · by_cases hmark : marks.contains c = true
        · simp only [advance, if_neg hquote, if_neg hblank, if_pos hmark]
          simp [flush]
        · rw [Bool.not_eq_true] at hblank hmark
          exact absurd ⟨hquote, hblank, hmark⟩ hc
  rw [run, run, hadvance]
  simp

/-! ## Statements -/

/-- A line is one statement. -/
def Writes (line : List Char) (body : List Token) : Prop :=
  ∃ last, isEnd last = true ∧ (∀ t ∈ body, isEnd t = false) ∧
    run (.outside []) line = (body ++ [last], .outside [])

private theorem statements?_append {line : List Char} {body : List Token} (h : Writes line body)
    (rest : List Char) : statements? (line ++ rest) = (statements? rest).map (body :: ·) := by
  obtain ⟨last, hlast, hbody, hrun⟩ := h
  rw [statements?, run_of_eq hrun, statements?]
  cases hrest : run (.outside []) rest with
  | mk ts mode =>
    cases mode with
    | inside value => rfl
    | outside word =>
      simp only [List.append_assoc, List.cons_append, List.nil_append, Option.map_some]
      rw [List.splitOnP_append_cons_of_forall_mem hbody last hlast]

private theorem statements?_newline (rest : List Char) :
    statements? ('\n' :: rest) = statements? rest := by
  have hnewline : advance (.outside []) '\n' = ([], .outside []) := by decide
  rw [statements?, run, hnewline, statements?]
  rfl

/-- Whether characters are the rest of a statement. -/
def isRest (cs : List Char) : Bool :=
  let (ts, mode) := run (.outside []) cs
  mode == .outside [] && ts.getLast?.any isEnd && ts.dropLast.all (!isEnd ·)

theorem writes_of_isRest {rest : List Char} (hrun : run (.outside []) cs =
      (ts ++ (run (.outside []) rest).1, (run (.outside []) rest).2))
    (hts : ∀ t ∈ ts, isEnd t = false) (h : isRest rest = true) :
    Writes cs (ts ++ (run (.outside []) rest).1.dropLast) := by
  rw [isRest] at h
  cases hrest : run (.outside []) rest with
  | mk tail mode =>
    simp only [hrest, Bool.and_eq_true, beq_iff_eq, Option.any_eq_true, List.all_eq_true,
      Bool.not_eq_true'] at h
    obtain ⟨⟨hmode, last, hlast, hend⟩, htail⟩ := h
    obtain ⟨tail, rfl⟩ := List.getLast?_eq_some_iff.mp hlast
    rw [List.dropLast_concat] at htail ⊢
    refine ⟨last, hend, ?_, ?_⟩
    · intro t ht
      exact (List.mem_append.mp ht).elim (hts t) (htail t)
    · rw [hrun, hrest, hmode, List.append_assoc]

/-! ## The ends of strings -/

theorem advance_inside (value : List Char) (c : Char) :
    advance (.inside value) c = ([.quoted (String.ofList value)], .outside []) ∨
      ∃ value', advance (.inside value) c = ([], .inside value') ∧
        ∀ p, p ++ ['"'] <+: value → p ++ ['"'] <+: value' := by
  by_cases hc : c = '"'
  · by_cases hopen : value.getLast? = some '\\'
    · refine Or.inr ⟨value.dropLast ++ ['"'], by simp [advance, hc, hopen], ?_⟩
      rintro p ⟨s, rfl⟩
      rcases s.eq_nil_or_concat with rfl | ⟨s, last, rfl⟩
      · simp at hopen
      · rw [List.concat_eq_append, ← List.append_assoc, List.dropLast_concat, List.append_assoc]
        exact List.prefix_append _ _
    · exact Or.inl (by simp [advance, hc, hopen])
  · refine Or.inr ⟨value ++ [c], by simp [advance, hc], ?_⟩
    intro p hp
    exact hp.trans (List.prefix_append _ _)

private theorem exists_quoted (hp : p ++ ['"'] <+: value)
    (h : run (.inside value) cs = (ts, .outside word)) :
    ∃ value' ts', ts = .quoted (String.ofList value') :: ts' ∧ p ++ ['"'] <+: value' := by
  induction cs generalizing value ts with
  | nil => cases h
  | cons c cs ih =>
    rw [run] at h
    rcases advance_inside value c with hadvance | ⟨value', hadvance, hkeep⟩
    · rw [hadvance] at h
      exact ⟨value, _, (congrArg Prod.fst h).symm, hp⟩
    · rw [hadvance] at h
      exact ih (hkeep p hp) h

/-- At a quote a string ends as it is, or it goes on as another one. -/
theorem exists_quoted_of_quote (h : run (.inside value) ('"' :: cs) = (ts, .outside word)) :
    ∃ value' ts', ts = .quoted (String.ofList value') :: ts' ∧
      (Closes value ∧ value' = value ∨ ¬ Closes value ∧ ¬ value <+: value') := by
  rw [run, advance, if_neg (not_not.mpr rfl)] at h
  by_cases hopen : value.getLast? = some '\\'
  · obtain ⟨start, rfl⟩ := List.getLast?_eq_some_iff.mp hopen
    rw [if_pos hopen, List.dropLast_concat] at h
    obtain ⟨value', ts', hts, hstart⟩ := exists_quoted List.prefix_rfl h
    refine ⟨value', ts', hts, Or.inr ⟨not_not.mpr hopen, ?_⟩⟩
    rintro ⟨s', heq⟩
    obtain ⟨s, rfl⟩ := hstart
    simp at heq
  · rw [if_neg hopen] at h
    exact ⟨value, _, (congrArg Prod.fst h).symm, Or.inl ⟨hopen, rfl⟩⟩

private theorem exists_splitOnP (hts : ∀ t ∈ ts, isEnd t = false) (rest : List Token) :
    ∃ tail more, (ts ++ rest).splitOnP isEnd = (ts ++ tail) :: more := by
  induction ts with
  | nil =>
    cases hsplit : rest.splitOnP isEnd with
    | nil => exact absurd hsplit (List.splitOnP_ne_nil isEnd rest)
    | cons tail more => exact ⟨tail, more, hsplit⟩
  | cons t ts ih =>
    obtain ⟨tail, more, hsplit⟩ := ih fun t ht ↦ hts t (List.mem_cons_of_mem _ ht)
    refine ⟨tail, more, ?_⟩
    rw [List.cons_append, List.splitOnP_cons_eq_if_modifyHead, hts t List.mem_cons_self, hsplit]
    rfl

/-- A string that is closed is the next token of its statement. If it ends with a backslash then
another string is read in its place. -/
theorem exists_statement {statements : List (List Token)}
    (hrun : run (.outside []) cs = (ts, .inside value)) (hts : ∀ t ∈ ts, isEnd t = false)
    (h : statements? (cs ++ '"' :: ds) = some statements) :
    ∃ value' tail more, statements = (ts ++ .quoted (String.ofList value') :: tail) :: more ∧
      (Closes value ∧ value' = value ∨ ¬ Closes value ∧ ¬ value <+: value') := by
  rw [statements?, run_of_eq hrun] at h
  cases hrest : run (.inside value) ('"' :: ds) with
  | mk rest mode =>
    rw [hrest] at h
    cases mode with
    | inside value => cases h
    | outside word =>
      obtain ⟨value', rest', hquoted, hvalue⟩ := exists_quoted_of_quote hrest
      have hfirst : ∀ t ∈ ts ++ [.quoted (String.ofList value')], isEnd t = false := by
        intro t ht
        rcases List.mem_append.mp ht with ht | ht
        · exact hts t ht
        · rw [List.mem_singleton.mp ht]
          rfl
      obtain ⟨tail, more, hsplit⟩ := exists_splitOnP hfirst (rest' ++ flush word)
      refine ⟨value', tail, more, ?_, hvalue⟩
      rw [hquoted] at h
      simp only [List.append_assoc, List.cons_append, List.nil_append] at h hsplit
      rw [← hsplit]
      exact (Option.some.inj h).symm

/-! ## Lines that show nothing -/

/-- A line is a statement that shows neither a node nor a title. -/
def Idle (line : List Char) : Prop :=
  ∃ body, Writes line body ∧ nodeOf? body = none ∧ titleOf? body = none

/-- Whether a line is such a statement. -/
def isIdle (line : List Char) : Bool :=
  isRest line && (nodeOf? (run (.outside []) line).1.dropLast).isNone &&
    (titleOf? (run (.outside []) line).1.dropLast).isNone

theorem idle_of_isIdle {line : List Char} (h : isIdle line = true) : Idle line := by
  simp only [isIdle, Bool.and_eq_true, Option.isNone_iff_eq_none] at h
  obtain ⟨⟨hrest, hnode⟩, htitle⟩ := h
  have hwrites : Writes line ([] ++ (run (.outside []) line).1.dropLast) :=
    writes_of_isRest rfl (by simp) hrest
  exact ⟨_, hwrites, hnode, htitle⟩

end Drawing

namespace Picture

open Drawing

variable {line : List Char}

theorem ofChars?_newline (rest : List Char) : ofChars? ('\n' :: rest) = ofChars? rest := by
  rw [ofChars?, statements?_newline, ofChars?]

theorem ofChars?_append {body : List Token} {f : Picture → Picture} (h : Writes line body)
    (hbody : ∀ statements, ofStatements (body :: statements) = f (ofStatements statements))
    (rest : List Char) : ofChars? (line ++ rest) = (ofChars? rest).map f := by
  rw [ofChars?, statements?_append h, ofChars?, Option.map_map, Option.map_map]
  exact congrArg (Option.map · (statements? rest)) (funext hbody)

theorem ofChars?_idle (h : Idle line) (rest : List Char) :
    ofChars? (line ++ rest) = ofChars? rest := by
  obtain ⟨body, hwrites, hnode, htitle⟩ := h
  have hbody (statements : List (List Token)) :
      ofStatements (body :: statements) = id (ofStatements statements) := by
    simp [ofStatements, htitle, hnode]
  rw [ofChars?_append hwrites hbody, Option.map_id_apply]

end Picture

end Datapath
