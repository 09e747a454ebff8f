/-!
# Log entries

What a run has to say besides its result: a list of entries, each with a level and the part of the
program that it comes from.
-/

namespace Datapath

/-- How important a log entry is, least first. -/
inductive LogLevel where
  /-- For finding faults. -/
  | debug
  /-- For information. -/
  | info
  | warning
  | error
deriving DecidableEq, Repr, Inhabited

namespace LogLevel

def name : LogLevel → String
  | .debug => "DEBUG"
  | .info => "INFO"
  | .warning => "WARNING"
  | .error => "ERROR"

/-- The place of a level in the order. -/
def rank : LogLevel → Nat
  | .debug => 0
  | .info => 1
  | .warning => 2
  | .error => 3

/-- The name of a level in five columns. -/
def tag (level : LogLevel) : String :=
  String.ofList ((level.name.toList ++ List.replicate 5 ' ').take 5)

end LogLevel

/-- An entry of a log. -/
structure LogEntry where
  /-- How important it is. -/
  level : LogLevel
  /-- The part of the program that it comes from. -/
  source : String
  /-- What it says, unless its values could not be put into words. -/
  message : Option String
deriving DecidableEq, Repr, Inhabited

namespace LogEntry

/-- The line in place of an entry that could not be put into words. -/
def lost : String := "--- Logging error ---"

def text (e : LogEntry) : String :=
  e.message.elim lost fun message ↦ s!"[{e.level.tag}] {e.source}: {message}"

end LogEntry

end Datapath
