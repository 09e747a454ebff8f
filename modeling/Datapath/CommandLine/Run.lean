import Datapath.Assessment
import Datapath.CommandLine.Request
import Datapath.CommandLine.Words
import Datapath.Graph.Dot
import Datapath.Oracle

/-!
# Runs

Carries out a command line on a host. The result goes to the standard output or to a file; the log
goes to the standard error output, as far as the command line asks for it.

A run ends with a status: all is well, the graph cannot be analysed, something about the request or
its files is wrong, or the gate blocks.
-/

namespace Datapath.CommandLine

/-- How a run ends. -/
inductive Status where
  /-- All is well. -/
  | proceed
  /-- The graph cannot be analysed. -/
  | fatal
  /-- The request or its files are wrong. -/
  | unusable
  /-- The gate blocks. -/
  | blocked
deriving DecidableEq, Repr, Inhabited

def Status.code : Status → UInt32
  | .proceed => 0
  | .fatal => 1
  | .unusable => 2
  | .blocked => 3

/-! ## Texts of results -/

/-- A text followed by blanks up to a width. -/
def padEnd (width : Nat) (s : String) : String :=
  s ++ String.ofList (List.replicate (width - s.length) ' ')

/-- A text after blanks up to a width. -/
def padStart (width : Nat) (s : String) : String :=
  String.ofList (List.replicate (width - s.length) ' ') ++ s

/-- The line for the interval of something. -/
def widthLine (name : String) (a : Interval) : String :=
  " ".intercalate [padEnd 24 name, padEnd 28 a.text, a.width.text]

/-- An interval as a document. -/
def widthDocument (a : Interval) : Json :=
  .obj [("interval", .arr [.int a.lo, .int a.hi]), ("width", .str a.width.text)]

/-- The widths of a graph as text. -/
def widthsText (g : Graph) (order : List Int) (r : Inference) (format : Format) : String :=
  match format with
  | .document =>
    (Json.obj [("passes", .int r.passes),
      ("registers", .obj (r.registers.map fun (name, a) ↦ (name, widthDocument a))),
      ("nodes", .obj (r.nodes.map fun (id, a) ↦ (toString id, widthDocument a)))]).pretty
  | _ =>
    let registers := r.registers.map fun (name, a) ↦ widthLine ("reg " ++ name) a
    let nodes := order.filterMap fun id ↦ do
      let n ← g.node? id
      let a ← r.nodes.lookup id
      return widthLine s!"n{id} {n.label}" a
    let count := r.nodes.length
    let summary := if format = .summary then
      [s!"--- {count} node(s), {r.passes} pass(es) ---"] else []
    "\n".intercalate (registers ++ nodes ++ summary)

/-- The line for a path. -/
def pathLine (threshold : Int) (p : PathReport) : String :=
  let mark := if p.exceeds threshold then "!" else " "
  let terminal := padEnd 5 (toString p.terminal)
  let depth := padStart 4 (toString p.depth)
  let target := padEnd 18 p.classification.name
  s!"{mark} n{terminal} {depth}  " ++ target ++ " " ++ " -> ".intercalate (p.kinds.map Kind.name)

/-- A path as a document. -/
def pathDocument (p : PathReport) : Json :=
  .obj [("terminal", .int p.terminal), ("classification", .str p.classification.name),
    ("weightedDepth", .int p.depth), ("chain", .arr (p.kinds.map fun k ↦ .str k.name)),
    ("nodes", .arr (p.chain.map .int))]

/-- The depths of a graph as text. -/
def depthText (r : DepthResult) (format : Format) : String :=
  match format with
  | .document =>
    (Json.obj [("threshold", .int r.threshold),
      ("paths", .arr (r.paths.map pathDocument))]).pretty
  | _ =>
    let paths := r.paths.length
    let exceeding := r.diagnostics.length
    let summary := if format = .summary then
      [s!"--- {paths} path(s), {exceeding} over threshold {r.threshold} ---"] else []
    "\n".intercalate (r.paths.map (pathLine r.threshold) ++ summary)

/-- A decision with the findings as a document. -/
def decisionDocument (a : Assessment) (d : Decision) : Json :=
  .obj [("diagnostics", .arr (a.findings.map Diagnostic.toJson)),
    ("threshold", .int a.platform.threshold), ("verdict", .str d.verdict.name),
    ("layer", .str d.layer.name), ("reason", .str d.reason),
    ("oracleAvailable", .bool d.oracleAvailable),
    ("slackNs", d.slack.getD .null)]

/-- A decision with the findings as text. -/
def decisionText (a : Assessment) (d : Decision) (format : Format) : Except Mishap String :=
  match format with
  | .document => .ok (decisionDocument a d).pretty
  | _ => do
    let findings := if a.findings.isEmpty then [] else [Diagnostic.lines a.findings]
    let count := a.findings.length
    let summary ← if format = .summary then
      (a.summary .int).map (· ++ [s!"--- {count} diagnostic(s) ---"]) else pure []
    let confidence := if d.oracleAvailable then "" else " (reduced confidence)"
    return "\n".intercalate (findings ++ summary ++ [s!"verdict: {d.text}{confidence}"])

/-! ## Steps -/

/-- The part of the log that a run itself leaves. -/
def logSource : String := "hdlcheck"

/-- The least level of log entry that is shown. -/
def leastLevel : Nat → LogLevel
  | 0 => .warning
  | 1 => .info
  | _ => .debug

variable {m : Type → Type} [Monad m] (host : Host m) (verbosity : Nat)

/-- Steps of a run, any of which may fail. -/
abbrev Step (m : Type → Type) := ExceptT Failure m

/-- Shows a log entry, if it is important enough. -/
def showEntry (entry : LogEntry) : m Unit :=
  if (leastLevel verbosity).rank ≤ entry.level.rank then host.complain entry.text else pure ()

/-- A step that logs some entries. -/
def log (entries : List LogEntry) : Step m Unit :=
  ExceptT.lift (entries.forM fun entry ↦ showEntry host verbosity entry)

/-- A step that may end in a mishap. -/
def attempt {α : Type} (action : m (Except Mishap α)) : Step m α :=
  ExceptT.mk (do return (← action).mapError .mishap)

/-- A step that needs nothing of the host. -/
def settled {α ε : Type} (wrap : ε → Failure) (outcome : Except ε α) : Step m α :=
  ExceptT.mk (pure (outcome.mapError wrap))

/-- Reads a document. One that is nested too deep is not merely a bad one. -/
def readDocument (path : PathName) (bad : Json.ReadError → Failure) : Step m Json := do
  let text ← attempt (host.readText path)
  settled (fun e ↦
    match e.cause with
    | .nesting what => .mishap (.nestedTooDeep what)
    | _ => bad e) (Json.read (String.ofList text))

def readGraph (path : PathName) : Step m Graph := do
  let document ← readDocument host path fun e ↦ .document (.noDocument path.text e)
  settled .ofDecode (Graph.ofDocument document)

/-- The graph that a request names. -/
def loadGraph (r : Request) : Step m Graph := do
  let path ← attempt (host.expandHome (.ofText r.graph))
  if ← attempt (host.leadsTo .file path) then
    log host verbosity [⟨.info, logSource, "Loading graph: " ++ path.text⟩]
    readGraph host path
  else throw (.document (.noSuchFile path.text))

/-- The configuration in a file, with what there is to log about it. -/
def readConfig (path : PathName) : Step m (Config × List LogEntry) := do
  let document ← ExceptT.adapt (fun
    | .mishap (.file flaw subject) =>
      .misconfigured (.unreadable path.text (Mishap.file flaw subject).message)
    | failure => failure)
    (readDocument host path fun e ↦ .misconfigured (.noDocument path.text e))
  match document with
  | .obj _ =>
    let config ← settled .ofRefusal (Config.ofDocument document)
    let warnings ← settled .mishap config.warnings
    return (config, warnings.map fun warning ↦
      ⟨.warning, "hdlcheck.config", s!"{path.text}: {warning}"⟩)
  | _ => throw (.misconfigured (.notAnObject path.text))

/-- The settings that a request overrides. -/
def overrides (r : Request) : List (String × Json) :=
  [("clock_mhz", r.clock), ("ns_per_weight_unit", r.unitTime), ("policy", r.policy),
    ("margin_ns", r.margin), ("max_iterations", r.maxIterations),
    ("widening_delay", r.wideningDelay)] ++
    (if r.elevate then [("elevate", .bool true)] else [])

/-- An option that is given and not empty. -/
def nonempty (given : Option String) : Option String := given.filter fun s ↦ !s.isEmpty

def buildConfig (r : Request) : Step m Config := do
  let (config, entries) ← match nonempty r.config with
    | some path => readConfig host (.ofText path)
    | none => pure (.default, [])
  log host verbosity entries
  let config ← settled .mishap (config.merge (overrides r))
  let warnings ← settled .mishap config.warnings
  log host verbosity (warnings.map fun w ↦ ⟨.warning, logSource, s!"config: {w}"⟩)
  return config

def buildOracle (r : Request) : Except Failure (Option Oracle) := do
  match r.slack, nonempty r.oracleCommand, nonempty r.timingReport with
  | .null, some command, _ =>
    match nonempty r.report with
    | none => throw (.misconfigured .commandWithoutReport)
    | some report =>
      let words ← (words command).mapError .mishap
      return some (← (Oracle.ofCommand words (.ofText report) none).mapError .mishap)
  | .null, none, some report => return some (.report (.ofText report))
  | .null, none, none => return none
  | slack, _, _ => return some (.fixed (some slack))

/-- Writes a result. A result that is not empty ends its last line. -/
def writeResult (r : Request) (text : String) : Step m Unit := do
  let ended := if text.isEmpty || text.endsWith "\n" then text else text ++ "\n"
  match r.output with
  | .null => host.print ended
  | .str "-" => host.print ended
  | .str path => attempt (host.save (.ofText path) ended)
  | other => throw (.mishap (.notAPath other.kindName))

/-! ## Actions -/

/-- The slack that an oracle answers. -/
def askOracle (oracle : Option Oracle) : Step m (Option Json) := do
  let answer : Oracle.Answer ← match oracle with
    | none => pure ⟨.ok none, []⟩
    | some oracle => ExceptT.lift (oracle.answer host)
  log host verbosity answer.log
  let slack ← settled .mishap answer.slack
  if slack.isNone then
    log host verbosity [⟨.warning, Assessment.logSource,
      "synthesis oracle unavailable; deciding on layer 1 alone"⟩]
  return slack

/-- Asks the gate, with the oracle of the request. -/
def decideGate (a : Assessment) (r : Request) : Step m Decision := do
  let outcome ← a.gate (do askOracle host verbosity (← settled id (buildOracle r)))
  let decision ← settled .mishap outcome
  if a.early.isNone then
    log host verbosity [⟨.info, Assessment.logSource, "gate: " ++ decision.text⟩]
  return decision

/-- Both layers and the gate. -/
def analyze (r : Request) : Step m Status := do
  let config ← buildConfig host verbosity r
  let g ← loadGraph host verbosity r
  match g.assess host.machine config with
  | .error interruption =>
    log host verbosity interruption.log
    throw interruption.failure
  | .ok a =>
    log host verbosity a.log
    let decision ← decideGate host verbosity a r
    writeResult host r (← settled .mishap (decisionText a decision r.format))
    return if decision.isBlocked then .blocked else .proceed

/-- The inferred widths. -/
def showWidths (r : Request) : Step m Status := do
  let config ← buildConfig host verbosity r
  let g ← settled id ((← loadGraph host verbosity r).checked host.machine)
  let layout ← settled .malformed g.layout
  let tuning ← settled .ofRefusal config.tuning
  match g.inferred host.machine tuning with
  | .error interruption =>
    log host verbosity interruption.log
    throw interruption.failure
  | .ok inference =>
    log host verbosity (inference.entries host.machine)
    writeResult host r (widthsText g layout.order inference r.format)
    return .proceed

/-- The weighted depths. -/
def showDepth (r : Request) : Step m Status := do
  let config ← buildConfig host verbosity r
  let g ← settled id ((← loadGraph host verbosity r).checked host.machine)
  let table ← settled .ofRefusal config.table
  let platform ← settled .ofRefusal config.platform
  let severity ← settled .ofRefusal config.findingSeverity
  let depth ← settled .ofDepth (g.measureDepth table platform.threshold severity)
  log host verbosity depth.entries
  writeResult host r (depthText depth r.format)
  return .proceed

/-- A drawing. -/
def showDrawing (r : Request) : Step m Status := do
  let g ← settled id ((← loadGraph host verbosity r).checked host.machine)
  writeResult host r (g.drawing (PathName.ofText r.graph).stem)
  return .proceed

def perform (r : Request) : Step m Status :=
  match r.action with
  | .analyze => analyze host verbosity r
  | .widths => showWidths host verbosity r
  | .depth => showDepth host verbosity r
  | .dot => showDrawing host verbosity r

/-! ## Ends of runs -/

/-- The status that a fault ends a run with. -/
def faultStatus (fault : Fault) : Status :=
  match fault.about with
  | .malformedGraph _ => .fatal
  | .divergence _ _ _ _ _ => .fatal
  | _ => .unusable

/-- What a failure says, and the status that it ends a run with. -/
def failureReport (machine : Machine) (failure : Failure) : String × Status :=
  match failure.fault machine with
  | .ok fault => (fault.render, faultStatus fault)
  | .error (.file flaw subject) =>
    ("I/O error: " ++ (Mishap.file flaw subject).message, .unusable)
  | .error cause => ("Unhandled exception: " ++ cause.message, .unusable)

/-- How a request ends. -/
def runRequest (r : Request) : m Status := do
  match ← (perform host verbosity r).run with
  | .ok status => return status
  | .error failure =>
    let (message, status) := failureReport host.machine failure
    showEntry host verbosity ⟨.error, logSource, message⟩
    return status

/-- How a command line ends that is not carried out. -/
def runStop (cause : Stop) : m Status := do
  match cause with
  | .misuse program message =>
    host.complain (grammarNamed program).usage
    host.complain s!"{program}: error: {message}"
    return .unusable
  | .help program =>
    host.print ((grammarNamed program).usage ++ "\n")
    return .proceed
  | .version =>
    host.print s!"{program} {version}\n"
    return .proceed

/-- Carries out a command line. -/
def run (arguments : List String) : m Status :=
  match order arguments with
  | .carryOut verbosity request => runRequest host verbosity request
  | .nothing => do
    host.complain grammar.usage
    return .unusable
  | .stop cause => runStop host cause

end Datapath.CommandLine
