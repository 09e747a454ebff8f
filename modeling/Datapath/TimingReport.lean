import Datapath.Number
import Datapath.Text.Lines
import Datapath.Text.Literal

/-!
# Timing reports

A timing report gives the worst slack of a design in one of two places. The summary table has a
header, rules of dashes, and a row whose first field is the worst slack. Without such a table, every
path has a line with its own slack, and the least of these counts.
-/

namespace Datapath.TimingReport

open Text

/-- What follows a word at the beginning of a text. -/
def after? (word : List Char) (cs : List Char) : Option (List Char) :=
  if word.isPrefixOf cs then some (cs.drop word.length) else none

/-- A text without the blanks at its beginning. -/
def skipBlanks (cs : List Char) : List Char := cs.dropWhile isBlank

/-! ## The summary table -/

/-- Whether a line is the header of the summary table. -/
def isHeader (line : List Char) : Bool :=
  match after? "WNS(ns)".toList (skipBlanks line) with
  | some (c :: rest) => isBlank c && (after? "TNS(ns)".toList (skipBlanks rest)).isSome
  | _ => false

/-- A decimal at the beginning of a text: an optional minus, digits, and a point only if digits
follow it. -/
def leadingDecimal? (cs : List Char) : Option (List Char × List Char) :=
  let (minus, cs) := match cs with
    | '-' :: rest => (['-'], rest)
    | _ => ([], cs)
  match cs.span isDigit with
  | ([], _) => none
  | (whole, '.' :: rest) =>
    match rest.span isDigit with
    | ([], _) => some (minus ++ whole, '.' :: rest)
    | (part, rest) => some (minus ++ whole ++ '.' :: part, rest)
  | (whole, rest) => some (minus ++ whole, rest)

def decimalValue (digits : List Char) : Double :=
  (Literal.double? (String.ofList digits)).getD (.nan 0)

/-- The value of a field that is a decimal. -/
def fieldValue? (field : List Char) : Option Double :=
  match leadingDecimal? field with
  | some (digits, []) => some (decimalValue digits)
  | _ => none

/-- Whether a line of a table is passed over: it is blank, or its first field is a rule. -/
def isRule (line : List Char) : Bool :=
  match fields line with
  | [] => true
  | field :: _ => field.all (· = '-')

/-- The slack in the first row after a header. -/
def rowSlack? (below : List (List Char)) : Option Double :=
  match below.dropWhile isRule with
  | [] => none
  | row :: _ => (fields row).head?.bind fieldValue?

/-- The slack of the first summary table that has one. -/
def summarySlack? : List (List Char) → Option Double
  | [] => none
  | line :: below =>
    match isHeader line, rowSlack? below with
    | true, some slack => some slack
    | _, _ => summarySlack? below

/-! ## The lines of the paths -/

/-- Whether a character stands for a small letter, in either case or in one of its variant
forms. -/
def isLetter (letter c : Char) : Bool :=
  c = letter || c.toLower = letter ||
    match letter with
    | 's' => c.toNat = 0x17f
    | 'k' => c.toNat = 0x212a
    | 'i' => c.toNat = 0x130 || c.toNat = 0x131
    | _ => false

/-- What follows a word in any letter case. -/
def afterWord? : List Char → List Char → Option (List Char)
  | [], cs => some cs
  | _ :: _, [] => none
  | letter :: word, c :: cs => if isLetter letter c then afterWord? word cs else none

/-- What follows the state of a path. -/
def afterState? (cs : List Char) : Option (List Char) :=
  (afterWord? "(met)".toList cs).or (afterWord? "(violated)".toList cs)

/-- A text without a colon at its beginning. -/
def skipColon : List Char → List Char
  | ':' :: rest => rest
  | cs => cs

/-- The slack of a path, given the text from the beginning of its line. -/
def pathSlack? (cs : List Char) : Option Double := do
  let cs ← afterWord? "slack".toList (skipBlanks cs)
  let cs ← afterState? (skipBlanks cs)
  let (digits, _) ← leadingDecimal? (skipBlanks (skipColon (skipBlanks cs)))
  return decimalValue digits

/-- A text from the beginning of each of its lines but the first. Only line feeds count here. -/
def fromLaterLines : List Char → List (List Char)
  | [] => []
  | '\n' :: rest => rest :: fromLaterLines rest
  | _ :: rest => fromLaterLines rest

/-- The slacks of all paths. A path after blank lines is found from each of them. -/
def pathSlacks (cs : List Char) : List Double :=
  (cs :: fromLaterLines cs).filterMap pathSlack?

/-- The first of the least. -/
def least? : List Double → Option Double
  | [] => none
  | x :: xs => some (xs.foldl (fun a b ↦ if b.value.lt a.value then b else a) x)

/-- The worst slack in a report. -/
def worstSlack? (report : List Char) : Option Double :=
  (summarySlack? (lines report)).or (least? (pathSlacks report))

end Datapath.TimingReport
