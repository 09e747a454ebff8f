import Datapath.Double.Decimal
import Datapath.Text.Character

/-!
# Number literals

Numbers reach this library as text in three grammars: integers, decimals and rationals. They share
runs of decimal digits of any script, in which a single underscore may stand between two digits.

* An integer is an optional sign and a run of digits.
* A decimal has a run of digits before or after its point, or on both sides, and may have an
  exponent; the words for the infinities and for `NaN` are decimals too, in any letter case.
* A rational is a decimal without those words, or two runs of digits divided by a slash.
-/

namespace Datapath.Literal

open Text

/-- The natural number with the given decimal digits. -/
def ofDigits (digits : List Nat) : Nat := digits.foldl (fun n d ↦ 10 * n + d) 0

/-- The rest of a run of digits, and what follows the run. -/
def moreDigits : List Char → List Nat × List Char
  | [] => ([], [])
  | '_' :: c :: rest =>
    match digitValue? c with
    | some d => let (ds, rest) := moreDigits rest; (d :: ds, rest)
    | none => ([], '_' :: c :: rest)
  | c :: rest =>
    match digitValue? c with
    | some d => let (ds, rest) := moreDigits rest; (d :: ds, rest)
    | none => ([], c :: rest)

/-- A run of digits, possibly empty, and what follows it. -/
def digitRun : List Char → List Nat × List Char
  | [] => ([], [])
  | c :: rest =>
    match digitValue? c with
    | some d => let (ds, rest) := moreDigits rest; (d :: ds, rest)
    | none => ([], c :: rest)

/-- An optional sign: whether it is a minus, and what follows it. -/
def sign : List Char → Bool × List Char
  | '-' :: rest => (true, rest)
  | '+' :: rest => (false, rest)
  | cs => (false, cs)

/-- The information separators, which are blank but not allowed around an integer or a decimal. -/
def isSeparator (c : Char) : Bool := decide (0x1c ≤ c.toNat) && decide (c.toNat ≤ 0x1f)

/-- The characters without the blanks that may surround an integer or a decimal. -/
def trim (cs : List Char) : List Char :=
  let blank := fun c ↦ isBlank c && !isSeparator c
  ((cs.dropWhile blank).reverse.dropWhile blank).reverse

/-- An integer with its sign. -/
def signed (negative : Bool) (n : Nat) : Int := if negative then -(n : Int) else n

/-- Reads an integer. -/
def int? (s : String) : Option Int :=
  let (negative, cs) := sign (trim s.toList)
  match digitRun cs with
  | (d :: ds, []) => some (signed negative (ofDigits (d :: ds)))
  | _ => none

/-- A point with the digits after it, if there is one. -/
def fraction : List Char → Option (List Nat) × List Char
  | '.' :: rest => let (ds, rest) := digitRun rest; (some ds, rest)
  | cs => (none, cs)

/-- An exponent, if a complete one is there. -/
def exponent : List Char → Int × List Char
  | c :: rest =>
    if c = 'e' || c = 'E' then
      let (negative, digits) := sign rest
      match digitRun digits with
      | ([], _) => (0, c :: rest)
      | (ds, rest) => (signed negative (ofDigits ds), rest)
    else (0, c :: rest)
  | [] => (0, [])

/-- Reads an unsigned decimal that fills the text up to what `isEnd` accepts. -/
def magnitude? (isEnd : List Char → Bool) (cs : List Char) : Option Decimal :=
  let (whole, cs) := digitRun cs
  let (part, cs) := fraction cs
  let (e, cs) := exponent cs
  let part := part.getD []
  if whole.isEmpty && part.isEmpty then none
  else if isEnd cs then some ⟨ofDigits (whole ++ part), e - part.length⟩
  else none

/-- A text with its letters `A` to `Z` made small. Other letters stay as they are. -/
def lower (cs : List Char) : String := String.ofList (cs.map Char.toLower)

/-- Reads a decimal as the double nearest to it. -/
def double? (s : String) : Option Double :=
  let (negative, cs) := sign (trim s.toList)
  if lower cs = "nan" then some (.nan 0)
  else if lower cs = "inf" || lower cs = "infinity" then some (.infinite negative)
  else (magnitude? List.isEmpty cs).map (Double.ofDecimal negative)

/-- A ratio with its sign; none if the denominator is zero. -/
def ratio? (negative : Bool) (num den : Nat) : Option Rat :=
  if den = 0 then none else some (mkRat (signed negative num) den)

/-- Reads a rational. -/
def rat? (s : String) : Option Rat :=
  let (negative, cs) := sign (s.toList.dropWhile isBlank)
  match digitRun cs with
  | (num :: nums, '/' :: rest) =>
    match digitRun rest with
    | (den :: dens, rest) =>
      if rest.all isBlank then ratio? negative (ofDigits (num :: nums)) (ofDigits (den :: dens))
      else none
    | _ => none
  | _ =>
    (magnitude? (List.all · isBlank) cs).bind fun d ↦
      let (num, den) := d.ratio
      ratio? negative num den

end Datapath.Literal
