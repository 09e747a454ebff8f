import Datapath.Mishap

/-!
# Words of a command

A command given as one text is cut into words at blanks. Quotes keep blanks in a word: between
single quotes everything stands for itself, and between double quotes a backslash escapes only
another backslash or a double quote. Outside quotes a backslash escapes anything.
-/

namespace Datapath.CommandLine

/-- Where in a command a character stands. -/
inductive WordState where
  /-- Between two words. -/
  | between
  /-- In a word, outside quotes. -/
  | inside
  /-- Between quotes. -/
  | quoted (quote : Char)
  /-- After a backslash outside quotes. -/
  | escaped
  /-- After a backslash between double quotes. -/
  | quotedEscaped
deriving DecidableEq, Repr, Inhabited

def isGap (c : Char) : Bool := c = ' ' || c = '\t' || c = '\r' || c = '\n'

def isQuote (c : Char) : Bool := c = '"' || c = '\''

/-- The state after a character outside quotes that is no gap, and what it adds to the word. -/
def outside (c : Char) : WordState × List Char :=
  if isQuote c then (.quoted c, [])
  else if c = '\\' then (.escaped, [])
  else (.inside, [c])

/-- The words of a text, given the state and the word so far. -/
def wordsFrom : WordState → List Char → List Char → Except Mishap (List String)
  | .between, _, [] => .ok []
  | .inside, word, [] => .ok [String.ofList word]
  | .quoted _, _, [] => .error .openQuote
  | .escaped, _, [] => .error .openEscape
  | .quotedEscaped, _, [] => .error .openEscape
  | .between, _, c :: rest =>
    if isGap c then wordsFrom .between [] rest
    else let (state, added) := outside c; wordsFrom state added rest
  | .inside, word, c :: rest =>
    if isGap c then (wordsFrom .between [] rest).map (String.ofList word :: ·)
    else let (state, added) := outside c; wordsFrom state (word ++ added) rest
  | .quoted quote, word, c :: rest =>
    if c = quote then wordsFrom .inside word rest
    else if c = '\\' && quote = '"' then wordsFrom .quotedEscaped word rest
    else wordsFrom (.quoted quote) (word ++ [c]) rest
  | .escaped, word, c :: rest => wordsFrom .inside (word ++ [c]) rest
  | .quotedEscaped, word, c :: rest =>
    let added := if c = '\\' || c = '"' then [c] else ['\\', c]
    wordsFrom (.quoted '"') (word ++ added) rest

def words (command : String) : Except Mishap (List String) :=
  wordsFrom .between [] command.toList

end Datapath.CommandLine
