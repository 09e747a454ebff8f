import Datapath.Graph.Malformed
import Datapath.Inference
import Datapath.Misconfigured

/-!
# Faults

A fault is what the user gets to see of a failure with a code of its own: the code, a message, and
notes that say more. Whatever is shown in it is kept as a document value.

A fault is put into words when it is made. On a machine that can come to a mishap, because an
integer may have more digits than are put into words. So every cause of a fault lists the values
that its words show, and the machine is asked about them first.
-/

namespace Datapath

/-- A code with its title. -/
structure FaultCode where
  code : String
  title : Json
deriving Inhabited

namespace FaultCode

def malformedGraph : FaultCode := ⟨"HDL-E001", .str "malformed dataflow graph"⟩

def divergence : FaultCode := ⟨"HDL-E002", .str "interval analysis diverged"⟩

def config : FaultCode := ⟨"HDL-E003", .str "invalid configuration"⟩

def interchange : FaultCode := ⟨"HDL-E004", .str "invalid graph interchange document"⟩

end FaultCode

/-- What a fault is about. -/
inductive FaultClass where
  /-- Nothing in particular. -/
  | general
  /-- A malformed graph, with the node ids that show it. -/
  | malformedGraph (chain : List Json)
  /-- A feedback loop that did not settle, with its last two seeds. -/
  | divergence (register : Json) (cycle : List Json) (previous current : Json × Json)
      (iterations : Json)
  | config
  | interchange

/-- What the user gets to see of a failure. -/
structure Fault where
  /-- What it is about. -/
  about : FaultClass
  code : FaultCode
  message : Json
  notes : List Json

namespace Fault

/-- The id of a node as it is shown. -/
def nodeText (id : Json) : String := s!"n{id.plain}"

/-- A range as it is shown. -/
def rangeText (range : Json × Json) : String := s!"[{range.1.plain}, {range.2.plain}]"

/-- A fault about nothing in particular; it shares its code with bad settings. -/
def general (message : Json) (code : Option FaultCode) (notes : List Json) : Fault :=
  ⟨.general, code.getD .config, message, notes⟩

/-- A fault about a malformed graph. A chain becomes the first note. -/
def malformedGraph (message : Json) (chain : List Json) (notes : List Json) : Fault :=
  let chainNote :=
    if chain.isEmpty then [] else [.str ("chain: " ++ " -> ".intercalate (chain.map nodeText))]
  ⟨.malformedGraph chain, .malformedGraph, message, chainNote ++ notes⟩

/-- A fault about a feedback loop that did not settle. -/
def divergence (register : Json) (cycle : List Json) (previous current : Json × Json)
    (iterations : Json) : Fault :=
  { about := .divergence register cycle previous current iterations
    code := .divergence
    message := .str (s!"interval of register '{register.plain}' did not stabilise after " ++
      s!"{iterations.plain} iterations")
    notes :=
      [.str ("cycle: " ++ ", ".intercalate (cycle.map nodeText)),
        .str s!"last estimates: {rangeText previous} -> {rangeText current}",
        .str "declare a register width or bound the value to give it a modulus"] }

def config (message : Json) (code : Option FaultCode) (notes : List Json) : Fault :=
  ⟨.config, code.getD .config, message, notes⟩

def interchange (message : Json) (code : Option FaultCode) (notes : List Json) : Fault :=
  ⟨.interchange, code.getD .interchange, message, notes⟩

def note (f : Fault) (text : Json) : Fault := { f with notes := f.notes ++ [text] }

/-- A fault as text: the code and the message, then a line for each note. -/
def render (f : Fault) : String :=
  "\n".intercalate
    (s!"error[{f.code.code}]: {f.message.plain}" :: f.notes.map fun text ↦ "  note: " ++ text.plain)

end Fault

/-- A fault that shows some values, as a machine makes it. -/
@[macro_inline] def Machine.fault (m : Machine) (shown : List Json) (fault : Fault) :
    Except Mishap Fault :=
  if shown.all (·.integers.all m.writes) then .ok fault else .error (.tooLongToWrite m.digits)

/-- The fault of a malformed graph, given how ids and values are shown. -/
def MalformedOf.fault {α : Type} (shown : α → Json) (m : MalformedOf α) : Fault :=
  Fault.malformedGraph (.str (m.message shown)) (m.chain.map shown) []

/-- The ends of an interval as they are shown. -/
def Interval.ends (a : Interval) : Json × Json := (.int a.lo, .int a.hi)

def Divergence.fault (d : Divergence) : Fault :=
  Fault.divergence (.str d.register) (d.cycle.map .int) d.previous.ends d.current.ends
    (.int d.iterations)

/-- The integers that a divergence shows. -/
def Divergence.integers (d : Divergence) : List Int :=
  d.iterations :: d.previous.lo :: d.previous.hi :: d.current.lo :: d.current.hi :: d.cycle

/-- The values that a divergence shows. -/
def Divergence.values (d : Divergence) : List Json := d.integers.map .int

def Misconfigured.fault (m : Misconfigured) : Fault := Fault.config (.str m.message) none []

end Datapath
