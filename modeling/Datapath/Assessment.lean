import Datapath.Config
import Datapath.Failure
import Datapath.Gate
import Datapath.Graph.Size
import Datapath.Log

/-!
# Assessments

An assessment is everything that can be said about a graph without a timing oracle: its widths, its
depths, and whether structure alone blocks the build. The gate then asks an oracle only if structure
does not block.

Every step leaves entries in a log. A failure keeps the entries of the steps before it.
-/

namespace Datapath

/-! ## What the analyses log -/

/-- The part of the log that inference leaves. -/
def Inference.logSource : String := "hdlcheck.interval_analysis"

/-- The entries for the steps from one seed to the next. -/
def Inference.stepEntries (m : Machine) (register : String) (history : List Interval) :
    List LogEntry :=
  ((history.zip history.tail).zipIdx 1).map fun ((before, after), iteration) ↦
    ⟨.debug, logSource, m.wording [before.lo, before.hi, after.lo, after.hi]
      s!"register {register} iteration {iteration}: {before.text} -> {after.text}"⟩

/-- The entries for a loop that settled. -/
def Inference.loopEntries (m : Machine) (register : String) (history : List Interval) :
    List LogEntry :=
  let final := history.getLast?.getD Inhabited.default
  stepEntries m register history ++
    [⟨.debug, logSource, m.wording [final.lo, final.hi]
      s!"register {register} stable at {final.text} after {history.length} iteration(s)"⟩]

/-- The entries for loops that settled. -/
def Inference.settledEntries (m : Machine) (histories : List (String × List Interval)) :
    List LogEntry :=
  histories.flatMap fun (register, history) ↦ loopEntries m register history

def Inference.entries (m : Machine) (r : Inference) : List LogEntry :=
  let nodes := r.nodes.length
  let loops := r.histories.length
  settledEntries m r.histories ++
    [⟨.info, logSource,
      s!"interval analysis: {nodes} nodes, {loops} feedback cycle(s), {r.passes} pass(es)"⟩]

def Inference.Failure.entries (m : Machine) : Inference.Failure → List LogEntry
  | .malformed _ => []
  | .diverged settled d => settledEntries m settled ++ stepEntries m d.register d.history
  | .mishap settled _ => settledEntries m settled

/-- The entries for a measurement of depths. -/
def DepthResult.entries (r : DepthResult) : List LogEntry :=
  let paths := r.paths.length
  let exceeding := r.diagnostics.length
  [⟨.info, "hdlcheck.depth_analysis",
    s!"depth analysis: {paths} path(s), {exceeding} over threshold {r.threshold}"⟩]

/-! ## Assessments -/

/-- What can be said without an oracle about a graph whose registers have names and whose nodes have
ranges of any type. -/
structure AssessmentOf (ν α : Type) where
  inference : InferenceOf ν α
  depth : DepthResult
  platform : Platform
  policy : Policy
  /-- Whether structural findings are treated as errors. -/
  elevate : Bool
  /-- The decision that structure forces. -/
  early : Option Decision
  log : List LogEntry

/-- What can be said about a graph without an oracle. -/
abbrev Assessment := AssessmentOf String Interval

namespace AssessmentOf

variable {ν α : Type}

def findings (a : AssessmentOf ν α) : List Diagnostic := a.depth.diagnostics

/-- Whether structure alone blocks. -/
def isBlocked (a : AssessmentOf ν α) : Bool := a.early.any (·.isBlocked)

/-- An assessment in lines of text, given how node ids are shown. -/
def summary (a : AssessmentOf ν α) (shown : Int → Json) : Except Mishap (List String) := do
  let platform ← a.platform.text
  let policy ← a.policy.text
  let worst := a.depth.worst?.elim [] fun p ↦
    let terminal := shown p.terminal
    [s!"worst path: depth {p.depth} into n{terminal.plain} ({p.classification.name})"]
  return [s!"platform: {platform}", s!"policy: {policy}"] ++ worst ++
    [s!"interval passes: {a.inference.passes}"]

/-- The decision of the gate, given what an oracle answers. Structure that blocks needs no
answer. -/
def decide (a : AssessmentOf ν α) (slack : Option Json) : Except Mishap Decision :=
  match a.early with
  | some decision => .ok decision
  | none => Gate.decide a.findings slack a.policy a.elevate

/-- Asks the gate. An oracle is asked only if structure does not block. -/
def gate {m : Type → Type} [Monad m] (a : AssessmentOf ν α) (ask : m (Option Json)) :
    m (Except Mishap Decision) :=
  match a.early with
  | some decision => pure (.ok decision)
  | none => a.decide <$> ask

end AssessmentOf

namespace Assessment

/-- The part of the log that an assessment leaves. -/
def logSource : String := "hdlcheck.pipeline"

/-- A failure, with the log up to it. -/
structure Interruption where
  log : List LogEntry
  failure : Failure

/-- The entry for the settings. A margin beyond the doubles cannot be put into words. -/
def settingsEntry (platform : Platform) (policy : Policy) : LogEntry :=
  let message := do
    let platform ← platform.text
    let policy ← policy.text
    return s!"platform: {platform}; policy: {policy}"
  ⟨.info, logSource, message.toOption⟩

/-- The entry for the widths. -/
def widthsEntry {ν α : Type} (r : InferenceOf ν α) : LogEntry :=
  let nodes := r.nodes.length
  let registers := r.registers.length
  ⟨.info, logSource,
    s!"interval inference: {nodes} node(s), {registers} register(s), {r.passes} pass(es)"⟩

/-- The entry for a decision that structure forces. -/
def earlyEntry (early : Option Decision) : List LogEntry :=
  early.elim [] fun d ↦ [⟨.warning, logSource, "layer 1 blocks the build: " ++ d.reason⟩]

/-- The analyses that an assessment is made of, each with its failures. -/
structure Analyses (ν α : Type) where
  /-- Checks that the graph is legal. -/
  validate : Except Failure Unit
  infer : Tuning → Except Interruption (InferenceOf ν α)
  /-- What there is to log about an inference. -/
  entries : InferenceOf ν α → List LogEntry
  measure : WeightTable → Int → Severity → Except Failure DepthResult

/-- Makes an assessment under a configuration. -/
def conduct {ν α : Type} (x : Analyses ν α) (c : Config) :
    Except Interruption (AssessmentOf ν α) := do
  let platform ← c.platform.mapError fun e ↦ ⟨[], .ofRefusal e⟩
  let policy ← c.gatePolicy.mapError fun e ↦ ⟨[], .ofRefusal e⟩
  let log := [settingsEntry platform policy]
  x.validate.mapError fun e ↦ ⟨log, e⟩
  let tuning ← c.tuning.mapError fun e ↦ ⟨log, .ofRefusal e⟩
  let inference ← (x.infer tuning).mapError fun e ↦ { e with log := log ++ e.log }
  let log := log ++ x.entries inference ++ [widthsEntry inference]
  let table ← c.table.mapError fun e ↦ ⟨log, .ofRefusal e⟩
  let severity ← c.findingSeverity.mapError fun e ↦ ⟨log, .ofRefusal e⟩
  let depth ← (x.measure table platform.threshold severity).mapError fun e ↦ ⟨log, e⟩
  let elevate := c.elevate.isTrue
  let early := Gate.structural? depth.diagnostics elevate
  return {
    inference, depth, platform, policy, elevate, early
    log := log ++ depth.entries ++ earlyEntry early }

end Assessment

/-- Validates a graph, unless that comes to a range that cannot be calculated. -/
def Graph.checked (m : Machine) (g : Graph) : Except Failure Graph :=
  match g.sizeMishap? m with
  | some mishap => .error (.mishap mishap)
  | none => g.validate.mapError .malformed

/-- Validates a graph on a machine, unless it is marked as validated: what comes out, and the graph
as it is afterwards. -/
def Graph.validating (m : Machine) (g : Graph) : Graph × Except Failure Unit :=
  if g.validated then (g, .ok ())
  else
    match g.sizeMishap? m with
    | some mishap => (g, .error (.mishap mishap))
    | none =>
      let (g, outcome) := g.revalidate
      (g, outcome.mapError .malformed)

/-- Validates a graph and infers its intervals. -/
def Graph.inferred (m : Machine) (g : Graph) (t : Tuning) :
    Except Assessment.Interruption Inference :=
  match g.checked m with
  | .error e => .error ⟨[], e⟩
  | .ok _ => (g.inferOn m t).mapError fun e ↦ ⟨e.entries m, .ofInference e⟩

/-- The analyses of a graph. Its layout is computed once for all of them. -/
def Graph.analyses (m : Machine) (g : Graph) : Assessment.Analyses String Interval :=
  let validated := g.checked m
  let known := validated.toOption.getD g
  { validate := validated.map fun _ ↦ ()
    infer := known.inferred m
    entries := Inference.entries m
    measure := fun w threshold severity ↦
      (known.measureDepth w threshold severity).mapError .ofDepth }

/-- Assesses a graph under a configuration. -/
def Graph.assess (m : Machine) (g : Graph) (c : Config) :
    Except Assessment.Interruption Assessment :=
  Assessment.conduct (g.analyses m) c

end Datapath
