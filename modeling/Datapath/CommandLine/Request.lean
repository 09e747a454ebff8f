import Datapath.CommandLine.Grammar
import Datapath.Policy

/-!
# Requests

What a command line asks for: an action on a graph, how its result is written, settings that
override those of a configuration file, and for an analysis where the slack comes from. Settings are
kept as document values, as a configuration keeps them; null stands for one that is not given.
-/

namespace Datapath.CommandLine

/-- What is done with a graph. -/
inductive Action where
  /-- Both layers and the gate. -/
  | analyze
  /-- The inferred widths. -/
  | widths
  /-- The weighted depths. -/
  | depth
  /-- A drawing. -/
  | dot
deriving DecidableEq, Repr, Inhabited

namespace Action

/-- The names of the actions; one has two. -/
def names : List (String × Action) :=
  [("analyze", .analyze), ("analyse", .analyze), ("widths", .widths), ("depth", .depth),
    ("dot", .dot)]

def name : Action → String
  | .analyze => "analyze"
  | .widths => "widths"
  | .depth => "depth"
  | .dot => "dot"

end Action

/-- How a result is written. -/
inductive Format where
  /-- Lines of text. -/
  | lines
  | document
  /-- Lines of text with a summary. -/
  | summary
deriving DecidableEq, Repr, Inhabited

namespace Format

def names : List (String × Format) := [("gcc", .lines), ("json", .document), ("summary", .summary)]

def ofName? (name : String) : Option Format := names.lookup name

end Format

/-- What a command line asks for. -/
structure Request where
  action : Action
  /-- The file with the graph. -/
  graph : String
  /-- The file for the result. -/
  output : Json
  format : Format
  config : Option String
  clock : Json
  /-- Nanoseconds per unit of weight. -/
  unitTime : Json
  policy : Json
  margin : Json
  /-- Whether structural findings are treated as errors. -/
  elevate : Bool
  /-- The most evaluations of a feedback loop. -/
  maxIterations : Json
  /-- The evaluations before widening starts. -/
  wideningDelay : Json
  /-- A known slack. -/
  slack : Json
  timingReport : Option String
  /-- A command that writes a timing report. -/
  oracleCommand : Option String
  /-- The timing report that the command writes. -/
  report : Option String

/-- What a whole command line comes to. -/
inductive Order where
  /-- A request, with the number of times that more words are asked for. -/
  | carryOut (verbosity : Nat) (request : Request)
  /-- Nothing is asked for. -/
  | nothing
  /-- The command line cannot be carried out, or asks about the program. -/
  | stop (cause : Stop)

/-! ## Grammars -/

def program : String := "hdlcheck"

def version : String := "0.1.0"

/-- The switch that asks for help. -/
def helpSwitch : Switch := ⟨["-h", "--help"], .help, false⟩

/-- A switch with a value. -/
def setting (names : List String) (reading : Reading) : Switch := ⟨names, .take reading [], false⟩

/-- A switch with one of a few values. -/
def choice (names : List String) (choices : List String) : Switch :=
  ⟨names, .take .text choices, false⟩

/-- The switches of every action. -/
def commonSwitches : List Switch :=
  [helpSwitch, setting ["-o", "--output"] .text,
    choice ["-f", "--format"] (Format.names.map (·.1))]

/-- The switches that override settings. -/
def configSwitches : List Switch :=
  [setting ["-c", "--config"] .text, setting ["--clock-mhz"] .decimal,
    setting ["--ns-per-weight"] .decimal, choice ["--policy"] (PolicyKind.all.map (·.name)),
    setting ["--margin"] .decimal, ⟨["--warnaserror"], .mark, false⟩,
    setting ["--max-iterations"] .integer, setting ["--widening-delay"] .integer]

/-- The switches that say where the slack comes from; the first three exclude each other. -/
def oracleSwitches : List Switch :=
  [⟨["--slack"], .take .decimal [], true⟩, ⟨["--timing-report"], .take .text [], true⟩,
    ⟨["--oracle-cmd"], .take .text [], true⟩, setting ["--report"] .text]

/-- The switches of an action. -/
def Action.switches : Action → List Switch
  | .analyze => commonSwitches ++ configSwitches ++ oracleSwitches
  | .widths => commonSwitches ++ configSwitches
  | .depth => commonSwitches ++ configSwitches
  | .dot => commonSwitches

/-- The grammar of an action. -/
def Action.grammar (a : Action) : Grammar where
  program := s!"{program} {a.name}"
  switches := a.switches
  operand := .argument "GRAPH"

/-- The grammar of whole command lines. -/
def grammar : Grammar where
  program := program
  switches := [helpSwitch, ⟨["--version"], .version, false⟩, ⟨["-v", "--verbose"], .mark, false⟩]
  operand := .command "<command>" (Action.names.map (·.1))

/-- The grammar that a program name in a message belongs to. -/
def grammarNamed (name : String) : Grammar :=
  match Action.names.find? fun entry ↦ entry.2.grammar.program = name with
  | some entry => entry.2.grammar
  | none => grammar

/-! ## Reading -/

/-- The request that an invocation of an action makes. -/
def Request.ofInvocation (action : Action) (i : Invocation) : Request where
  action
  graph := i.operand.head?.getD ""
  output := i.json "--output"
  format := ((i.text? "--format").bind Format.ofName?).getD .lines
  config := i.text? "--config"
  clock := i.json "--clock-mhz"
  unitTime := i.json "--ns-per-weight"
  policy := i.json "--policy"
  margin := i.json "--margin"
  elevate := i.count "--warnaserror" ≠ 0
  maxIterations := i.json "--max-iterations"
  wideningDelay := i.json "--widening-delay"
  slack := i.json "--slack"
  timingReport := i.text? "--timing-report"
  oracleCommand := i.text? "--oracle-cmd"
  report := i.text? "--report"

/-- Refuses arguments that no grammar has a place for. -/
def refuseExtras (extras : List String) : Except Stop Unit :=
  if extras.isEmpty then .ok ()
  else grammar.misuse ("unrecognized arguments: " ++ " ".intercalate extras)

/-- Reads a command line. -/
def readOrder (arguments : List String) : Except Stop Order := do
  let i ← grammar.read arguments
  match i.operand with
  | [] =>
    refuseExtras i.extras
    return .nothing
  | name :: rest =>
    let action := (Action.names.lookup name).getD .analyze
    let inner ← action.grammar.read rest
    refuseExtras (i.extras ++ inner.extras)
    return .carryOut (i.count "--verbose") (.ofInvocation action inner)

/-- What a command line comes to. -/
def order (arguments : List String) : Order :=
  match readOrder arguments with
  | .ok order => order
  | .error cause => .stop cause

end Datapath.CommandLine
