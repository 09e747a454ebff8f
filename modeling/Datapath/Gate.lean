import Datapath.Diagnostic
import Datapath.Json.Order
import Datapath.Policy

/-!
# The gate

The gate decides whether a build proceeds. It looks at the structural findings first: if they are
treated as errors, a path that is too deep blocks at once. Otherwise the slack that a timing oracle
reported is compared with what the policy requires, and without a slack the build proceeds on the
structural findings alone, with less confidence.

Slack is compared by exact value. A slack that is not a number is not below anything. A slack is
kept as it was given, and one that has no order is noticed only when it is compared.
-/

namespace Datapath

/-- Whether a build proceeds. -/
inductive Verdict where
  /-- It does. -/
  | proceed
  /-- It does not. -/
  | block
deriving DecidableEq, Repr, Inhabited

def Verdict.name : Verdict → String
  | .proceed => "proceed"
  | .block => "block"

/-- What a decision rests on. -/
inductive Layer where
  /-- The structure of the graph. -/
  | structural
  /-- The slack of an oracle. -/
  | oracle
deriving DecidableEq, Repr, Inhabited

def Layer.name : Layer → String
  | .structural => "layer1"
  | .oracle => "layer2"

/-- A decision of the gate. -/
structure Decision where
  /-- Whether the build proceeds. -/
  verdict : Verdict
  reason : String
  /-- What the decision rests on. -/
  layer : Layer
  /-- Whether there was a slack. -/
  oracleAvailable : Bool
  slack : Option Json
deriving Inhabited

namespace Decision

def isBlocked (d : Decision) : Bool := d.verdict = .block

/-- Whether the decision was made without a slack. -/
def hasReducedConfidence (d : Decision) : Bool := !d.oracleAvailable

def text (d : Decision) : String := s!"{d.verdict.name}: {d.reason}"

end Decision

namespace Gate

/-- The findings about paths that are too deep. -/
def violations (findings : List Diagnostic) : List Diagnostic :=
  findings.filter (·.isDepthViolation)

/-- The decision that structure alone forces: to block, if findings are treated as errors and some
path is too deep. -/
def structural? (findings : List Diagnostic) (elevate : Bool) : Option Decision :=
  match elevate, violations findings with
  | true, first :: rest =>
    let more := if rest.isEmpty then "" else s!" (+{rest.length} more)"
    some {
      verdict := .block
      reason := "structural depth violation treated as error: " ++ first.describe ++ more
      layer := .structural
      oracleAvailable := false
      slack := none }
  | _, _ => none

/-- A remark on the findings that did not block. -/
def advisory (findings : List Diagnostic) : String :=
  match (violations findings).length with
  | 0 => ""
  | n => s!"; {n} structural warning(s)"

/-- The decision on a slack. -/
def onSlack (findings : List Diagnostic) (slack : Json) (policy : Policy) :
    Except Mishap Decision := do
  let decision (verdict : Verdict) (reason : String) : Decision :=
    ⟨verdict, reason, .oracle, true, some slack⟩
  let below ← slack.compare .less (policy.required?.getD (.int 0))
  let shown ← slack.signedRounded
  let name ← policy.text
  match policy.required? with
  | none =>
    let note := if below then "timing violated" else "timing met"
    return decision .proceed
      (s!"{note} (slack {shown} ns), policy {name} never blocks" ++ advisory findings)
  | some required =>
    if below then
      let bound ← required.rounded
      return decision .block
        (s!"oracle timing violation: slack {shown} ns below required {bound} ns " ++
          s!"under policy {name}")
    else
      return decision .proceed (s!"slack {shown} ns meets policy {name}" ++ advisory findings)

/-- The decision of the gate. -/
def decide (findings : List Diagnostic) (slack : Option Json) (policy : Policy)
    (elevate : Bool) : Except Mishap Decision :=
  match structural? findings elevate, slack with
  | some early, _ => .ok { early with oracleAvailable := slack.isSome, slack }
  | none, some slack => onSlack findings slack policy
  | none, none =>
    .ok {
      verdict := .proceed
      reason := "oracle unavailable, layer-1 only decision" ++ advisory findings
      layer := .structural
      oracleAvailable := false
      slack := none }

end Gate

end Datapath
