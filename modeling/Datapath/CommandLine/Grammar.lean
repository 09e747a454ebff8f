import Datapath.Json
import Datapath.Text.Literal

/-!
# Command-line grammars

A grammar has switches and one operand. A switch has short and long names; it may take a value, and
the value may be restricted. The operand is an argument, or the name of a command with everything
that follows it.

## Which arguments are switches

An argument that begins with a dash is a switch, unless it is a single dash or looks like a negative
number, or has a space in it and no switch to match. After a double dash nothing is a switch. A long
name may be cut short as long as one switch fits, and may bring its value along after an equals
sign. A short name may bring its value along directly, and short names without values may share a
dash. A double dash that is brought along as a value is dropped: the switch is given without one.

All arguments are classified before any of them takes effect, so an ambiguous name is reported
whatever stands before it.
-/

namespace Datapath.CommandLine

/-- How the value of a switch is read. -/
inductive Reading where
  /-- As it is. -/
  | text
  /-- As an integer. -/
  | integer
  /-- As a decimal. -/
  | decimal
deriving DecidableEq, Repr, Inhabited

/-- The value of a switch. -/
inductive Value where
  | text (value : String)
  | integer (value : Int)
  | decimal (value : Double)
  /-- A value that was dropped. -/
  | blank
deriving DecidableEq, Repr, Inhabited

namespace Value

/-- A value as a document value; nothing is left of one that was dropped but an empty list. -/
def toJson : Value → Json
  | .text s => .str s
  | .integer n => .int n
  | .decimal x => .real x
  | .blank => .arr []

/-- The text of a value that is one. -/
def text? : Value → Option String
  | .text s => some s
  | _ => none

end Value

namespace Reading

def name : Reading → String
  | .text => "str"
  | .integer => "int"
  | .decimal => "float"

def read? : Reading → String → Option Value
  | .text, s => some (.text s)
  | .integer, s => (Literal.int? s).map .integer
  | .decimal, s => (Literal.double? s).map .decimal

end Reading

/-- What a switch does. -/
inductive Effect where
  /-- It takes a value, which may have to be one of a few. -/
  | take (reading : Reading) (choices : List String)
  /-- It is there or not. -/
  | mark
  /-- It asks for help. -/
  | help
  /-- It asks for the version. -/
  | version
deriving DecidableEq, Repr, Inhabited

/-- A switch. -/
structure Switch where
  /-- Its names, each with its dashes. -/
  names : List String
  /-- What it does. -/
  effect : Effect
  /-- Whether it excludes the other switches that say so. -/
  exclusive : Bool
deriving DecidableEq, Repr, Inhabited

namespace Switch

/-- The name under which a switch is looked up: its last. -/
def key (s : Switch) : String := s.names.getLast?.getD ""

/-- All names of a switch, as messages show them. -/
def title (s : Switch) : String := "/".intercalate s.names

/-- A message about a switch. -/
def complaint (s : Switch) (message : String) : String := s!"argument {s.title}: {message}"

def takesValue (s : Switch) : Bool :=
  match s.effect with
  | .take _ _ => true
  | _ => false

end Switch

/-- What a grammar has besides switches. -/
inductive Operand where
  /-- An argument that must be there. -/
  | argument (placeholder : String)
  /-- A command that may be there, with all that follows it. -/
  | command (placeholder : String) (names : List String)
deriving DecidableEq, Repr, Inhabited

/-- A grammar of command lines. -/
structure Grammar where
  /-- The program, as messages name it. -/
  program : String
  switches : List Switch
  operand : Operand
deriving DecidableEq, Repr, Inhabited

/-- Why reading a command line stops. -/
inductive Stop where
  /-- It is not in the grammar. -/
  | misuse (program message : String)
  /-- Help is asked for. -/
  | help (program : String)
  /-- The version is asked for. -/
  | version
deriving DecidableEq, Repr, Inhabited

/-! ## Classification -/

/-- A switch with the name and the value that an argument gives it. -/
structure Match where
  switch : Switch
  name : String
  /-- The value that the argument brings along. -/
  explicit : Option String
deriving DecidableEq, Repr, Inhabited

/-- What an argument is. -/
inductive Mark where
  | switch (found : Match)
  /-- A switch that the grammar does not have. -/
  | unknown
  /-- No switch. -/
  | argument
  /-- The first double dash. -/
  | divider
deriving DecidableEq, Repr, Inhabited

/-- An argument with what it is. -/
structure Token where
  text : String
  mark : Mark
deriving DecidableEq, Repr, Inhabited

namespace Grammar

/-- The switches of a grammar, by each of their names. -/
def byName (g : Grammar) : List (String × Switch) :=
  g.switches.flatMap fun s ↦ s.names.map fun name ↦ (name, s)

def named? (g : Grammar) (name : String) : Option Switch := g.byName.lookup name

/-- A text up to its first equals sign, and what follows that. -/
def splitValue (s : String) : String × Option String :=
  match s.toList.span (· ≠ '=') with
  | (name, _ :: value) => (String.ofList name, some (String.ofList value))
  | (name, []) => (String.ofList name, none)

/-- The switches that a long name may be short for. -/
def longMatches (g : Grammar) (s : String) : List Match :=
  let (shortened, explicit) := splitValue s
  g.byName.filterMap fun (name, switch) ↦
    if shortened.toList.isPrefixOf name.toList then some ⟨switch, name, explicit⟩ else none

/-- The switches that a text with a single dash may stand for. -/
def shortMatches (g : Grammar) (s : String) : List Match :=
  let short := String.ofList (s.toList.take 2)
  g.byName.filterMap fun (name, switch) ↦
    if name = short then some ⟨switch, name, some (String.ofList (s.toList.drop 2))⟩
    else if s.toList.isPrefixOf name.toList then some ⟨switch, name, none⟩
    else none

/-- The switches that an argument may stand for. -/
def possibleMatches (g : Grammar) (s : String) : List Match :=
  match s.toList with
  | _ :: '-' :: _ => g.longMatches s
  | _ => g.shortMatches s

/-- Whether a text looks like a negative number: digits, or a point with digits after it. -/
def isNegativeNumber (cs : List Char) : Bool :=
  match cs with
  | '-' :: body =>
    let body := if body.getLast? = some '\n' then body.dropLast else body
    match body.span Text.isDigit with
    | (whole, []) => !whole.isEmpty
    | (_, '.' :: part) => !part.isEmpty && part.all Text.isDigit
    | _ => false
  | _ => false

/-- What an argument is that begins with a dash and is no name of a switch. -/
def classifyOther (g : Grammar) (s : String) : Except String Mark :=
  match g.possibleMatches s with
  | [found] => .ok (.switch found)
  | [] => .ok (if isNegativeNumber s.toList || s.toList.contains ' ' then .argument else .unknown)
  | several =>
    let names := ", ".intercalate (several.map (·.name))
    .error s!"ambiguous option: {s} could match {names}"

/-- What an argument before the first double dash is. -/
def classify (g : Grammar) (s : String) : Except String Mark :=
  match s.toList with
  | '-' :: _ =>
    match g.named? s with
    | some switch => .ok (.switch ⟨switch, s, none⟩)
    | none =>
      if s = "-" then .ok .argument
      else
        match splitValue s with
        | (name, some value) =>
          match g.named? name with
          | some switch => .ok (.switch ⟨switch, name, some value⟩)
          | none => g.classifyOther s
        | _ => g.classifyOther s
  | _ => .ok .argument

def tokens (g : Grammar) : List String → Except String (List Token)
  | [] => .ok []
  | "--" :: rest => .ok (⟨"--", .divider⟩ :: rest.map fun s ↦ ⟨s, .argument⟩)
  | s :: rest => do
    let mark ← g.classify s
    return ⟨s, mark⟩ :: (← g.tokens rest)

end Grammar

/-! ## Reading -/

/-- What a command line says. -/
structure Invocation where
  /-- The switches, by their keys, in the order in which they are given. -/
  given : List (String × Option Value)
  /-- The exclusive switches among them. -/
  exclusive : List Switch
  operand : List String
  /-- The arguments that the grammar has no place for. -/
  extras : List String
deriving DecidableEq, Repr, Inhabited

namespace Invocation

/-- A command line that says nothing. -/
def empty : Invocation := ⟨[], [], [], []⟩

/-- The last value of a switch. -/
def value? (i : Invocation) (key : String) : Option Value :=
  (i.given.reverse.lookup key).bind id

/-- How often a switch is given. -/
def count (i : Invocation) (key : String) : Nat := (i.given.filter (·.1 = key)).length

/-- The text that a switch is given. -/
def text? (i : Invocation) (key : String) : Option String := (i.value? key).bind Value.text?

/-- What a switch is given, as a document value; null if it is not there. -/
def json (i : Invocation) (key : String) : Json := (i.value? key).elim .null Value.toJson

end Invocation

namespace Grammar

/-- Stops with a message. -/
def misuse {α : Type} (g : Grammar) (message : String) : Except Stop α :=
  .error (.misuse g.program message)

/-- The message about a value that is not one of a few. -/
def choiceMessage (value : String) (choices : List String) : String :=
  let given := Text.quoted value
  let shown := ", ".intercalate (choices.map Text.quoted)
  s!"invalid choice: {given} (choose from {shown})"

/-- Records an exclusive switch. -/
def exclude (g : Grammar) (i : Invocation) (s : Switch) : Except Stop Invocation :=
  if !s.exclusive then .ok i
  else
    match (g.switches.filter (·.exclusive)).find? fun other ↦
        other ≠ s && i.exclusive.contains other with
    | some other => g.misuse (s.complaint s!"not allowed with argument {other.title}")
    | none => .ok { i with exclusive := i.exclusive ++ [s] }

/-- Records the value of a switch. -/
def give (g : Grammar) (i : Invocation) (s : Switch) (value : Value) : Except Stop Invocation := do
  let i ← g.exclude i s
  return { i with given := i.given ++ [(s.key, some value)] }

/-- Puts a switch into effect. -/
def apply (g : Grammar) (i : Invocation) (s : Switch) (value : Option String) :
    Except Stop Invocation :=
  match s.effect, value with
  | .take _ _, some "--" => g.give i s .blank
  | .take reading choices, some text =>
    match reading.read? text with
    | none =>
      let shown := Text.quoted text
      g.misuse (s.complaint s!"invalid {reading.name} value: {shown}")
    | some value =>
      if !choices.isEmpty && !choices.contains text then
        g.misuse (s.complaint (choiceMessage text choices))
      else g.give i s value
  | .help, _ => .error (.help g.program)
  | .version, _ => .error .version
  | _, _ => .ok { i with given := i.given ++ [(s.key, none)] }

/-- Refuses a value that a switch does not take. -/
def ignored (g : Grammar) (s : Switch) (explicit : List Char) :
    Except Stop (List (Switch × Option String)) :=
  let shown := Text.quoted (String.ofList explicit)
  g.misuse (s.complaint s!"ignored explicit argument {shown}")

/-- The switches that share a dash, each with its value. The last one may still need a value from
the next argument: it then has none here. -/
def cluster (g : Grammar) (s : Switch) (isShort : Bool) :
    List Char → Except Stop (List (Switch × Option String))
  | [] => if s.takesValue then .ok [(s, some "")] else g.ignored s []
  | c :: rest =>
    if s.takesValue then .ok [(s, some (String.ofList (c :: rest)))]
    else
      match isShort, g.named? (String.ofList ['-', c]) with
      | true, some next =>
        if rest.isEmpty then .ok [(s, none), (next, none)]
        else do return (s, none) :: (← g.cluster next true rest)
      | _, _ => g.ignored s (c :: rest)

/-- The switches that an argument gives. -/
def expand (g : Grammar) (found : Match) : Except Stop (List (Switch × Option String)) :=
  match found.explicit, found.name.toList with
  | none, _ => .ok [(found.switch, none)]
  | some explicit, _ :: '-' :: _ => g.cluster found.switch false explicit.toList
  | some explicit, _ => g.cluster found.switch true explicit.toList

/-- Whether the last of some switches needs a value from the next argument. -/
def needsValue? (switches : List (Switch × Option String)) : Option Switch :=
  match switches.getLast? with
  | some (s, none) => if s.takesValue then some s else none
  | _ => none

/-- Puts switches into effect, with a value for the last one. -/
def applyAll (g : Grammar) (i : Invocation) (switches : List (Switch × Option String))
    (value : Option String) : Except Stop Invocation :=
  switches.foldlM (fun i (s, own) ↦ g.apply i s (if s.takesValue then own.or value else own)) i

/-- Checks a command line that has been read to its end. -/
def finish (g : Grammar) (i : Invocation) : Except Stop Invocation :=
  match g.operand with
  | .argument placeholder =>
    if i.operand.isEmpty then g.misuse s!"the following arguments are required: {placeholder}"
    else .ok i
  | .command _ _ => .ok i

/-- Takes a command with all that follows it. -/
def takeCommand (g : Grammar) (i : Invocation) (placeholder : String) (names : List String)
    (all : List String) : Except Stop Invocation :=
  let name := all.head?.getD ""
  if names.contains name then .ok { i with operand := all }
  else g.misuse (s!"argument {placeholder}: " ++ choiceMessage name names)

/-- Reads classified arguments. -/
def readTokens (g : Grammar) (i : Invocation) : List Token → Except Stop Invocation
  | [] => g.finish i
  | ⟨text, .unknown⟩ :: rest => g.readTokens { i with extras := i.extras ++ [text] } rest
  | ⟨_, .switch found⟩ :: rest => do
    let switches ← g.expand found
    match needsValue? switches with
    | none => g.readTokens (← g.applyAll i switches none) rest
    | some s =>
      match rest with
      | ⟨value, .argument⟩ :: rest => g.readTokens (← g.applyAll i switches (some value)) rest
      | _ => g.misuse (s.complaint "expected one argument")
  | ⟨text, .argument⟩ :: rest =>
    match g.operand, i.operand with
    | .command placeholder names, [] =>
      g.takeCommand i placeholder names (text :: rest.map (·.text))
    | .argument _, [] =>
      match rest with
      | ⟨_, .divider⟩ :: rest => g.readTokens { i with operand := [text] } rest
      | rest => g.readTokens { i with operand := [text] } rest
    | _, _ => g.readTokens { i with extras := i.extras ++ [text] } rest
  | ⟨text, .divider⟩ :: rest =>
    match g.operand, i.operand, rest with
    | .command placeholder names, [], _ :: _ =>
      g.takeCommand i placeholder names (text :: rest.map (·.text))
    | .argument _, [], next :: rest => g.readTokens { i with operand := [next.text] } rest
    | _, _, rest => g.readTokens { i with extras := i.extras ++ [text] } rest

def read (g : Grammar) (arguments : List String) : Except Stop Invocation := do
  match g.tokens arguments with
  | .error message => g.misuse message
  | .ok tokens => g.readTokens .empty tokens

/-- A line that shows what a grammar accepts. -/
def usage (g : Grammar) : String :=
  let switches := g.switches.map fun s ↦
    let name := s.names.head?.getD s.key
    if s.takesValue then s!"[{name} VALUE]" else s!"[{name}]"
  let operand := match g.operand with
    | .argument placeholder => [placeholder]
    | .command placeholder _ => [placeholder, "..."]
  "usage: " ++ " ".intercalate (g.program :: switches ++ operand)

end Grammar

end Datapath.CommandLine
