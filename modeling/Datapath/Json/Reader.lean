import Datapath.Json
import Datapath.Text.Literal

/-!
# Reading documents

A recursive-descent reader for JSON texts. It accepts the words `NaN`, `Infinity` and `-Infinity`
as numbers, refuses control characters inside texts, and lets a later entry of an object replace an
earlier one with the same key.

Every function takes the characters still to be read and returns those left over. A failure carries
the characters that were left at the place it points to, from which the position in the text
follows. The functions for values, items and entries call each other with less fuel; each call that
spends fuel also consumes a character or closes a bracket, so twice the length of the text is always
enough. Arrays and objects may only be nested so deep, whatever the length of the text.
-/

namespace Datapath.Json

/-- What was expected, or what is wrong. -/
inductive ReadCause where
  /-- No value starts here. -/
  | value
  /-- A key must be a quoted text. -/
  | propertyName
  /-- A key is followed by a colon. -/
  | colon
  /-- Items are divided by commas. -/
  | comma
  /-- Something follows the document. -/
  | extraData
  /-- A text is not closed. -/
  | unterminated
  /-- A control character inside a text. -/
  | controlCharacter
  | badEscape
  /-- Four hexadecimal digits were expected. -/
  | badUnitEscape
  /-- The text starts with a byte order mark. -/
  | byteOrderMark
  /-- An array or an object, as named, is nested too deep. -/
  | nesting (what : String)
deriving DecidableEq, Repr, Inhabited

def ReadCause.message : ReadCause → String
  | .value => "Expecting value"
  | .propertyName => "Expecting property name enclosed in double quotes"
  | .colon => "Expecting ':' delimiter"
  | .comma => "Expecting ',' delimiter"
  | .extraData => "Extra data"
  | .unterminated => "Unterminated string starting at"
  | .controlCharacter => "Invalid control character at"
  | .badEscape => "Invalid \\escape"
  | .badUnitEscape => "Invalid \\uXXXX escape"
  | .byteOrderMark => "Unexpected UTF-8 BOM (decode using utf-8-sig)"
  | .nesting what => s!"Too deep for an {what}"

/-- A failure with the characters left at its place. -/
structure Stop where
  /-- What went wrong. -/
  cause : ReadCause
  /-- The characters that were left there. -/
  left : List Char
deriving DecidableEq, Repr, Inhabited

/-- A failure with its place in the text. -/
structure ReadError where
  /-- What went wrong. -/
  cause : ReadCause
  /-- The number of characters before the place. -/
  position : Nat
  /-- The line of the place, from one. -/
  line : Nat
  /-- The column of the place, from one. -/
  column : Nat
deriving DecidableEq, Repr, Inhabited

def ReadError.message (e : ReadError) : String :=
  s!"{e.cause.message}: line {e.line} column {e.column} (char {e.position})"

/-- Locates a failure in its text. -/
def Stop.locate (text : List Char) (stop : Stop) : ReadError :=
  let position := text.length - stop.left.length
  let before := text.take position
  { cause := stop.cause
    position
    line := before.count '\n' + 1
    column := (before.reverse.takeWhile (· ≠ '\n')).length + 1 }

/-- Whether a character may stand between the parts of a document. -/
def isSpace (c : Char) : Bool := c = ' ' || c = '\t' || c = '\n' || c = '\r'

/-- Skips the characters between parts. -/
def skipSpace (cs : List Char) : List Char := cs.dropWhile isSpace

/-! ## Texts -/

/-- The value of a hexadecimal digit. -/
def hexDigit? (c : Char) : Option Nat :=
  if '0' ≤ c ∧ c ≤ '9' then some (c.toNat - 48)
  else if 'a' ≤ c ∧ c ≤ 'f' then some (c.toNat - 87)
  else if 'A' ≤ c ∧ c ≤ 'F' then some (c.toNat - 55)
  else none

/-- The number spelled by four hexadecimal digits that do not end the text. -/
def unit? : List Char → Option (Nat × List Char)
  | a :: b :: c :: d :: e :: rest =>
    match hexDigit? a, hexDigit? b, hexDigit? c, hexDigit? d with
    | some a, some b, some c, some d => some (((a * 16 + b) * 16 + c) * 16 + d, e :: rest)
    | _, _, _, _ => none
  | _ => none

/-- Whether a UTF-16 unit opens a pair. -/
def isHighUnit (unit : Nat) : Bool := decide (0xd800 ≤ unit) && decide (unit < 0xdc00)

/-- Whether a UTF-16 unit closes a pair. -/
def isLowUnit (unit : Nat) : Bool := decide (0xdc00 ≤ unit) && decide (unit < 0xe000)

/-- The character of an escape with four digits, which may take a second such escape with it. A
failure points at the letter before the digits. -/
def unitChar (cs : List Char) : Except Stop (Char × List Char) :=
  match unit? cs with
  | none => .error ⟨.badUnitEscape, 'u' :: cs⟩
  | some (high, rest) =>
    match isHighUnit high, rest with
    | true, '\\' :: 'u' :: more =>
      if (more.take 5).length < 5 then .ok (Char.ofNat high, rest)
      else
        match unit? more with
        | none => .error ⟨.badUnitEscape, 'u' :: more⟩
        | some (low, after) =>
          if isLowUnit low then
            .ok (Char.ofNat (0x10000 + (high - 0xd800) * 0x400 + (low - 0xdc00)), after)
          else .ok (Char.ofNat high, rest)
    | _, _ => .ok (Char.ofNat high, rest)

/-- The character of an escape with one letter. -/
def simpleEscape? : Char → Option Char
  | '"' => some '"'
  | '\\' => some '\\'
  | '/' => some '/'
  | 'b' => some (Char.ofNat 8)
  | 'f' => some (Char.ofNat 12)
  | 'n' => some '\n'
  | 'r' => some '\r'
  | 't' => some '\t'
  | _ => none

/-- The characters of a text up to its closing quote, gathered in reverse. `start` is what was left
at the opening quote. Every step consumes a character, so `fuel` need not exceed their number. -/
def readText (start : List Char) : (fuel : Nat) → (acc : List Char) → List Char →
    Except Stop (String × List Char)
  | 0, _, _ => .error ⟨.unterminated, start⟩
  | _ + 1, _, [] => .error ⟨.unterminated, start⟩
  | _ + 1, acc, '"' :: rest => .ok (String.ofList acc.reverse, rest)
  | _ + 1, _, ['\\'] => .error ⟨.unterminated, start⟩
  | fuel + 1, acc, '\\' :: 'u' :: rest =>
    match unitChar rest with
    | .error stop => .error stop
    | .ok (c, rest) => readText start fuel (c :: acc) rest
  | fuel + 1, acc, '\\' :: c :: rest =>
    match simpleEscape? c with
    | none => .error ⟨.badEscape, '\\' :: c :: rest⟩
    | some c => readText start fuel (c :: acc) rest
  | fuel + 1, acc, c :: rest =>
    if c.toNat < 0x20 then .error ⟨.controlCharacter, c :: rest⟩
    else readText start fuel (c :: acc) rest

/-! ## Numbers -/

/-- A run of ASCII digits. -/
def asciiDigits (cs : List Char) : List Char × List Char :=
  (cs.takeWhile Char.isDigit, cs.dropWhile Char.isDigit)

/-- The natural number of a run of ASCII digits. -/
def digitsValue (digits : List Char) : Nat :=
  digits.foldl (fun n c ↦ 10 * n + (c.toNat - 48)) 0

/-- The digits before the point: a zero alone, or a run that does not start with one. -/
def wholePart? : List Char → Option (List Char × List Char)
  | '0' :: rest => some (['0'], rest)
  | cs =>
    match asciiDigits cs with
    | ([], _) => none
    | (digits, rest) => some (digits, rest)

/-- A point with at least one digit after it. -/
def fractionPart? : List Char → Option (List Char × List Char)
  | '.' :: rest =>
    match asciiDigits rest with
    | ([], _) => none
    | (digits, rest) => some (digits, rest)
  | _ => none

/-- An exponent with at least one digit. -/
def exponentPart? : List Char → Option (Int × List Char)
  | c :: rest =>
    if c = 'e' || c = 'E' then
      let (negative, digits) := Literal.sign rest
      match asciiDigits digits with
      | ([], _) => none
      | (digits, rest) => some (Literal.signed negative (digitsValue digits), rest)
    else none
  | [] => none

/-- Reads a number without its sign. -/
def unsigned? (negative : Bool) (cs : List Char) : Option (Json × List Char) :=
  (wholePart? cs).map fun (whole, cs) ↦
    let part := fractionPart? cs
    let cs := (part.map Prod.snd).getD cs
    let power := exponentPart? cs
    let cs := (power.map Prod.snd).getD cs
    if part.isNone && power.isNone then (.int (Literal.signed negative (digitsValue whole)), cs)
    else
      let places := (part.map Prod.fst).getD []
      let exponent := (power.map Prod.fst).getD 0
      (.real (Double.ofDecimal negative
        ⟨digitsValue (whole ++ places), exponent - places.length⟩), cs)

/-- Drops a word from the front of the characters. -/
def word? (word : String) (cs : List Char) : Option (List Char) :=
  if word.toList.isPrefixOf cs then some (cs.drop word.length) else none

/-- Reads a value that is neither text, array nor object. -/
def atom? (cs : List Char) : Option (Json × List Char) :=
  match word? "null" cs with
  | some rest => some (.null, rest)
  | none =>
  match word? "true" cs with
  | some rest => some (.bool true, rest)
  | none =>
  match word? "false" cs with
  | some rest => some (.bool false, rest)
  | none =>
  match word? "NaN" cs with
  | some rest => some (.real (.nan 0), rest)
  | none =>
  match word? "Infinity" cs with
  | some rest => some (.real (.infinite false), rest)
  | none =>
  match word? "-Infinity" cs with
  | some rest => some (.real (.infinite true), rest)
  | none =>
  match cs with
  | '-' :: rest => unsigned? true rest
  | _ => unsigned? false cs

/-! ## Values -/

/-- How deep arrays and objects may be nested. -/
def deepestNesting : Nat := 990

mutual

/-- Reads a value that starts with the first character; `room` is how much deeper it may be. -/
def readValue : Nat → (room : Nat) → List Char → Except Stop (Json × List Char)
  | 0, _, cs => .error ⟨.value, cs⟩
  | fuel + 1, room, cs =>
    match cs with
    | '"' :: rest =>
      match readText cs fuel [] rest with
      | .error stop => .error stop
      | .ok (s, rest) => .ok (.str s, rest)
    | '[' :: rest =>
      match room, skipSpace rest with
      | 0, _ => .error ⟨.nesting "array", cs⟩
      | _ + 1, ']' :: rest => .ok (.arr [], rest)
      | room + 1, rest => readItems fuel room [] rest
    | '\x7b' :: rest =>
      match room, skipSpace rest with
      | 0, _ => .error ⟨.nesting "object", cs⟩
      | _ + 1, '\x7d' :: rest => .ok (.obj [], rest)
      | room + 1, rest => readEntries fuel room [] rest
    | _ =>
      match atom? cs with
      | some result => .ok result
      | none => .error ⟨.value, cs⟩

def readItems : Nat → (room : Nat) → List Json → List Char → Except Stop (Json × List Char)
  | 0, _, _, cs => .error ⟨.value, cs⟩
  | fuel + 1, room, acc, cs =>
    match readValue fuel room cs with
    | .error stop => .error stop
    | .ok (item, rest) =>
      match skipSpace rest with
      | ']' :: rest => .ok (.arr (item :: acc).reverse, rest)
      | ',' :: rest => readItems fuel room (item :: acc) (skipSpace rest)
      | rest => .error ⟨.comma, rest⟩

def readEntries : Nat → (room : Nat) → List (String × Json) → List Char →
    Except Stop (Json × List Char)
  | 0, _, _, cs => .error ⟨.value, cs⟩
  | fuel + 1, room, acc, cs =>
    match cs with
    | '"' :: rest =>
      match readText cs fuel [] rest with
      | .error stop => .error stop
      | .ok (key, rest) =>
        match skipSpace rest with
        | ':' :: rest =>
          match readValue fuel room (skipSpace rest) with
          | .error stop => .error stop
          | .ok (value, rest) =>
            let acc := setEntry key value acc
            match skipSpace rest with
            | '\x7d' :: rest => .ok (.obj acc, rest)
            | ',' :: rest => readEntries fuel room acc (skipSpace rest)
            | rest => .error ⟨.comma, rest⟩
        | rest => .error ⟨.colon, rest⟩
    | _ => .error ⟨.propertyName, cs⟩

end

/-- Reads a whole text as one document. -/
def read (text : String) : Except ReadError Json :=
  let cs := text.toList
  let outcome : Except Stop Json :=
    if cs.head? = some (Char.ofNat 0xfeff) then .error ⟨.byteOrderMark, cs⟩
    else
      match readValue (2 * cs.length + 1) deepestNesting (skipSpace cs) with
      | .error stop => .error stop
      | .ok (value, rest) =>
        match skipSpace rest with
        | [] => .ok value
        | rest => .error ⟨.extraData, rest⟩
  outcome.mapError (·.locate cs)

end Datapath.Json
