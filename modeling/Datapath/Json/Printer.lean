import Datapath.Json

/-!
# Writing documents

A document is written on one line, or with one item to a line and two blanks for each level of
nesting. Every character outside printable ASCII is escaped, so the text is plain ASCII. The
infinities and `NaN` are written as words, which the reader accepts.
-/

namespace Datapath.Json

/-- A UTF-16 unit as an escape. -/
def unitEscape (unit : Nat) : String := "\\u" ++ Text.hex 4 unit

/-- How a character is written inside a text. -/
def escapeChar (c : Char) : String :=
  if c = '"' then "\\\""
  else if c = '\\' then "\\\\"
  else if c = '\n' then "\\n"
  else if c = '\r' then "\\r"
  else if c = '\t' then "\\t"
  else if c.toNat = 8 then "\\b"
  else if c.toNat = 12 then "\\f"
  else if 0x20 ≤ c.toNat ∧ c.toNat < 0x7f then c.toString
  else if c.toNat < 0x10000 then unitEscape c.toNat
  else
    let offset := c.toNat - 0x10000
    unitEscape (0xd800 + offset / 0x400) ++ unitEscape (0xdc00 + offset % 0x400)

/-- A text in double quotes. -/
def printText (s : String) : String := "\"" ++ String.join (s.toList.map escapeChar) ++ "\""

/-- A double in shortest form, or as a word. -/
def printReal (x : Double) : String :=
  match x with
  | .finite _ _ _ => x.toText
  | _ => x.wordFor "NaN" "Infinity"

mutual

/-- A document on one line. -/
def compact : Json → String
  | .null => "null"
  | .bool b => if b then "true" else "false"
  | .int n => toString n
  | .real x => printReal x
  | .str s => printText s
  | .arr items => "[" ++ ", ".intercalate (compactItems items) ++ "]"
  | .obj entries => "\x7b" ++ ", ".intercalate (compactEntries entries) ++ "\x7d"

def compactItems : List Json → List String
  | [] => []
  | item :: rest => item.compact :: compactItems rest

def compactEntries : List (String × Json) → List String
  | [] => []
  | (key, value) :: rest => (printText key ++ ": " ++ value.compact) :: compactEntries rest

end

/-- A line break and the blanks of a level of nesting. -/
def lineAt (level : Nat) : String := "\n" ++ String.ofList (List.replicate (2 * level) ' ')

/-- The parts of an array or object, one to a line. -/
def block (opening closing : String) (level : Nat) (parts : List String) : String :=
  if parts.isEmpty then opening ++ closing
  else
    opening ++ lineAt (level + 1) ++ ("," ++ lineAt (level + 1)).intercalate parts ++
      lineAt level ++ closing

mutual

/-- A document over several lines, at a level of nesting. -/
def prettyAt (level : Nat) : Json → String
  | .arr items => block "[" "]" level (prettyItems (level + 1) items)
  | .obj entries => block "\x7b" "\x7d" level (prettyEntries (level + 1) entries)
  | .null => "null"
  | .bool b => if b then "true" else "false"
  | .int n => toString n
  | .real x => printReal x
  | .str s => printText s

def prettyItems (level : Nat) : List Json → List String
  | [] => []
  | item :: rest => prettyAt level item :: prettyItems level rest

def prettyEntries (level : Nat) : List (String × Json) → List String
  | [] => []
  | (key, value) :: rest =>
    (printText key ++ ": " ++ prettyAt level value) :: prettyEntries level rest

end

/-- A document over several lines. -/
def pretty (value : Json) : String := prettyAt 0 value

end Datapath.Json
