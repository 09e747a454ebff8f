import Datapath.Depth
import Datapath.Fault
import Datapath.Graph.Document

/-!
# Failures

Every part of a run has its own type of failure. `Failure` is their sum, for a run as a whole. All
but the mishaps have a fault to show.
-/

namespace Datapath

/-- What is wrong with something that should be a graph and is none. -/
inductive RoughCause where
  /-- It is not even legal by the rules for graphs. -/
  | malformed (cause : MalformedOf Json)
  /-- A feedback loop did not settle; its last two ranges are kept. -/
  | diverged (register : Json) (cycle : List Json) (previous current : Json × Json)
      (iterations : Json)

namespace RoughCause

/-- The fault to show. -/
def fault : RoughCause → Fault
  | .malformed cause => cause.fault id
  | .diverged register cycle previous current iterations =>
    .divergence register cycle previous current iterations

/-- The values that are shown. -/
def values : RoughCause → List Json
  | .malformed cause => cause.values id
  | .diverged register cycle previous current iterations =>
    register :: iterations :: previous.1 :: previous.2 :: current.1 :: current.2 :: cycle

end RoughCause

/-- Why a run fails. -/
inductive Failure where
  /-- The graph is not legal. -/
  | malformed (cause : Malformed)
  /-- A feedback loop did not settle. -/
  | diverged (divergence : Divergence)
  /-- The settings are bad. -/
  | misconfigured (cause : Misconfigured)
  /-- The document is no graph. -/
  | document (cause : BadDocument)
  /-- Something that should be a graph is none. -/
  | rough (cause : RoughCause)
  /-- Anything else. -/
  | mishap (cause : Mishap)

/-- The fault of a bad document. -/
def BadDocument.fault (b : BadDocument) : Fault :=
  Fault.interchange (.str b.message) none []

namespace Failure

/-- The failure of refused settings. -/
def ofRefusal : Refusal → Failure
  | .misconfigured cause => .misconfigured cause
  | .mishap cause => .mishap cause

def ofInference : Inference.Failure → Failure
  | .malformed cause => .malformed cause
  | .diverged _ divergence => .diverged divergence
  | .mishap _ cause => .mishap cause

def ofDepth : Depth.Failure → Failure
  | .misconfigured cause => .misconfigured cause
  | .malformed cause => .malformed cause
  | .mishap cause => .mishap cause

def ofDecode : Graph.DecodeFailure → Failure
  | .document cause => .document cause
  | .malformed cause => .malformed cause
  | .mishap cause => .mishap cause

/-- The fault to show, unless the failure is a mishap or becomes one when a machine puts it into
words. -/
def fault (m : Machine) : Failure → Except Mishap Fault
  | .malformed cause => m.fault (cause.values .int) (cause.fault .int)
  | .diverged divergence => m.fault divergence.values divergence.fault
  | .misconfigured cause => m.fault cause.values cause.fault
  | .document cause => m.fault cause.values cause.fault
  | .rough cause => m.fault cause.values cause.fault
  | .mishap cause => .error cause

/-- A failure as it is reported by a machine. -/
def raised (m : Machine) (f : Failure) : Failure :=
  match f.fault m with
  | .ok _ => f
  | .error cause => .mishap cause

end Failure

end Datapath
