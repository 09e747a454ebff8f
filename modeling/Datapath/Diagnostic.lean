import Datapath.Graph.Node
import Datapath.Json.Printer

/-!
# Diagnostics

A finding about a path of operations, with its severity, and its forms as a line of text and as a
document. What is only shown is kept as a document value.
-/

namespace Datapath

/-- How serious a finding is, least first. -/
inductive Severity where
  /-- For information. -/
  | info
  | warning
  | error
deriving DecidableEq, Repr, Inhabited

namespace Severity

def all : List Severity := [.info, .warning, .error]

def name : Severity → String
  | .info => "info"
  | .warning => "warning"
  | .error => "error"

def ofName? (name : String) : Option Severity := all.find? (·.name = name)

def rank : Severity → Nat
  | .info => 0
  | .warning => 1
  | .error => 2

/-- The greatest of some severities. -/
def greatest? : List Severity → Option Severity
  | [] => none
  | s :: ss => some (ss.foldl (fun a b ↦ if a.rank < b.rank then b else a) s)

/-- Severities in order, least first. -/
def sort (severities : List Severity) : List Severity :=
  severities.mergeSort fun a b ↦ decide (a.rank ≤ b.rank)

end Severity

/-- Where a path of operations leads. -/
inductive PathClass where
  /-- To an output. -/
  | feedforward
  /-- To a register. -/
  | feedbackToState
deriving DecidableEq, Repr, Inhabited

namespace PathClass

def all : List PathClass := [.feedforward, .feedbackToState]

def name : PathClass → String
  | .feedforward => "feedforward"
  | .feedbackToState => "feedback-to-state"

def ofName? (name : String) : Option PathClass := all.find? (·.name = name)

end PathClass

/-- A finding about a path of operations. -/
structure Diagnostic where
  /-- How serious it is. -/
  severity : Severity
  /-- What it is, as a stable identifier. -/
  id : Json
  /-- What it is, in words. -/
  message : Json
  /-- The kinds of the nodes on the path. -/
  kinds : List String
  /-- The ids of the nodes on the path. -/
  nodes : List Json
  /-- The place that the path came from. -/
  place : Option Place
  /-- The weighted depth of the path. -/
  depth : Json
  /-- The threshold it was compared with. -/
  threshold : Json
  /-- Where the path leads. -/
  classification : Option PathClass
deriving Inhabited

namespace Diagnostic

/-- The identifier of a path that is too deep. -/
def depthThresholdExceeded : Json := .str "depthThresholdExceeded"

/-- Whether a finding is about a path that is too deep. -/
def isDepthViolation (d : Diagnostic) : Bool := d.id == depthThresholdExceeded

/-- The kinds on the path, in words. -/
def chainText (d : Diagnostic) : String := " -> ".intercalate d.kinds

/-- The path and the comparison with the threshold, in words. -/
def describe (d : Diagnostic) : String :=
  s!"{d.chainText} (weighted depth {d.depth.plain} > threshold {d.threshold.plain})" ++
    (d.classification.elim "" fun c ↦ s!" [{c.name}]")

def toJson (d : Diagnostic) : Json :=
  .obj <|
    [("severity", .str d.severity.name), ("errorId", d.id), ("message", d.message),
      ("chain", .arr (d.kinds.map .str)), ("nodes", .arr d.nodes),
      ("weightedDepth", d.depth), ("threshold", d.threshold)] ++
    (d.classification.elim [] fun c ↦ [("classification", .str c.name)]) ++
    (d.place.elim [] fun p ↦ [("file", p.file), ("linenr", p.line), ("column", p.column)])

def line (d : Diagnostic) : String :=
  let place := d.place.elim "<graph>" Place.text
  s!"{place}: {d.severity.name}: {d.message.plain} [{d.id.plain}] {d.chainText}"

/-- Findings as lines of text. -/
def lines (ds : List Diagnostic) : String := "\n".intercalate (ds.map line)

def document (ds : List Diagnostic) : String := (Json.arr (ds.map toJson)).pretty

/-- The greatest severity among findings. -/
def greatestSeverity? (ds : List Diagnostic) : Option Severity :=
  Severity.greatest? (ds.map (·.severity))

end Diagnostic

end Datapath
