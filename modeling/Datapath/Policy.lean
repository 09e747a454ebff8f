import Datapath.Misconfigured
import Datapath.Number
import Datapath.Text.Character
import Datapath.Text.Literal

/-!
# Policies

A policy says which slack lets a build proceed: any, one that is not negative, or one of at least a
positive margin.
-/

namespace Datapath

/-- The kinds of policy. -/
inductive PolicyKind where
  /-- Slack never blocks. -/
  | warn
  /-- Negative slack blocks. -/
  | error
  /-- Slack below a margin blocks. -/
  | strict
deriving DecidableEq, Repr, Inhabited

namespace PolicyKind

def all : List PolicyKind := [.warn, .error, .strict]

def name : PolicyKind → String
  | .warn => "warn"
  | .error => "error"
  | .strict => "strict"

def ofName? (name : String) : Option PolicyKind := all.find? (·.name = name)

/-- Whether a margin goes with a kind of policy: a strict one has a positive number, another has
nothing. -/
def allows : PolicyKind → Json → Bool
  | .strict, margin =>
    match margin.number? with
    | some m => Extended.zero.lt m.value
    | none => false
  | _, margin => !margin.isTrue

end PolicyKind

/-- A policy. -/
structure Policy where
  kind : PolicyKind
  /-- Its margin, as it was given. -/
  margin : Json
  /-- The margin goes with the kind. -/
  allowed : kind.allows margin = true

namespace Policy

/-- What is wrong with a margin that does not go with a kind of policy. -/
def refuse (kind : PolicyKind) (margin : Json) : Refusal :=
  match kind, margin.number? with
  | .strict, some _ => .misconfigured (.marginNotPositive margin)
  | .strict, none => .mishap (.noOrder ">" margin.kindName "int")
  | _, _ => .misconfigured (.marginWithoutStrict kind.name)

/-- The policy of a kind with a margin. -/
def make (kind : PolicyKind) (margin : Json) : Except Refusal Policy :=
  if h : kind.allows margin then .ok ⟨kind, margin, h⟩ else .error (refuse kind margin)

/-- The margin of a policy that was given none. -/
def noMargin : Json := .real Double.zero

/-- The name of a policy without the blanks around it, with the letters `A` to `Z` made small. Other
capitals stay as they are: none of them has a small letter that stands in the name of a policy. -/
def normalName (name : String) : String := Literal.lower (Text.strip name.toList)

/-- The policy with a name, and with a margin if it is strict. -/
def parse (name : Json) (margin : Option Json) : Except Refusal Policy :=
  match name with
  | .str name =>
    match PolicyKind.ofName? (normalName name), margin with
    | none, _ => .error (.misconfigured (.unknownPolicy name))
    | some .strict, none => .error (.misconfigured .noMargin)
    | some .strict, some margin => make .strict margin
    | some kind, _ => make kind noMargin
  | other => .error (.mishap (.noOperation other.kindName "strip"))

/-- The least slack that a policy lets pass, if slack matters at all. -/
def required? (p : Policy) : Option Json :=
  match p.kind with
  | .warn => none
  | .error => some (.real Double.zero)
  | .strict => some p.margin

def text (p : Policy) : Except Mishap String :=
  match p.kind with
  | .strict => p.margin.rounded.map fun margin ↦ s!"strict(margin={margin}ns)"
  | kind => .ok kind.name

end Policy

end Datapath
