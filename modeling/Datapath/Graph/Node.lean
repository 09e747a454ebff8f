import Datapath.Interval
import Datapath.Number

/-!
# Nodes and registers

A node performs one operation on the values of other nodes, which it names by their ids. Registers
are declared apart from the nodes; a node that reads or writes one names it.

Documents may put any value where a register or a display name belongs, and such a value is kept as
it is. Only a text can name a declared register.
-/

namespace Datapath

/-- The operation of a node. -/
inductive Kind where
  /-- A literal. -/
  | const
  /-- A value from outside. -/
  | input
  | add
  | sub
  | mul
  | div
  | compare
  /-- A choice between branches. -/
  | mux
  /-- A use of a variable. -/
  | varRef
  /-- A definition of a variable. -/
  | binding
  /-- A field of a record. -/
  | fieldGet
  /-- The current value of a register. -/
  | regRead
  /-- The next value of a register. -/
  | regWrite
  /-- A value to the outside. -/
  | output
deriving DecidableEq, Repr, Inhabited

namespace Kind

def all : List Kind :=
  [.const, .input, .add, .sub, .mul, .div, .compare, .mux, .varRef, .binding, .fieldGet, .regRead,
    .regWrite, .output]

/-- The name of a kind in documents and messages. -/
def name : Kind → String
  | .const => "const"
  | .input => "input"
  | .add => "add"
  | .sub => "sub"
  | .mul => "mul"
  | .div => "div"
  | .compare => "compare"
  | .mux => "mux"
  | .varRef => "var_ref"
  | .binding => "binding"
  | .fieldGet => "field_get"
  | .regRead => "reg_read"
  | .regWrite => "reg_write"
  | .output => "output"

def ofName? (name : String) : Option Kind := all.find? (·.name = name)

/-- Whether a path of operations ends at a node of this kind. -/
def isTerminal (k : Kind) : Bool := k = .regWrite || k = .output

/-- Whether a node of this kind names a register. -/
def isRegister (k : Kind) : Bool := k = .regRead || k = .regWrite

def minOperands : Kind → Nat
  | .const | .input | .regRead => 0
  | .add | .sub | .mul | .div | .compare => 2
  | .mux => 3
  | .varRef | .binding | .fieldGet | .regWrite | .output => 1

/-- The greatest number of operands; a choice has no limit. -/
def maxOperands : Kind → Option Nat
  | .mux => none
  | k => some k.minOperands

/-- Whether a kind takes a number of operands. -/
def accepts (k : Kind) (count : Nat) : Bool :=
  decide (k.minOperands ≤ count) && (k.maxOperands.all fun most ↦ decide (count ≤ most))

end Kind

/-- A place in a source text. -/
structure Span where
  file : String
  line : Int
  /-- The column; zero means that it is not known. -/
  column : Int
deriving DecidableEq, Repr, Inhabited

/-- A place in a source text, as it was given. -/
structure Place where
  file : Json
  line : Json
  /-- The column; zero means that it is not known. -/
  column : Json
deriving Inhabited

def Place.text (p : Place) : String :=
  let start := s!"{p.file.plain}:{p.line.plain}"
  if p.column.isTrue then s!"{start}:{p.column.plain}" else start

/-- A place in the form in which it is shown. -/
def Span.place (s : Span) : Place := ⟨.str s.file, .int s.line, .int s.column⟩

/-- What a node is apart from its id. -/
structure Operation where
  kind : Kind
  /-- The ids of the operands, in order. The first operand of a choice selects the branch. -/
  operands : List Int
  /-- The value of a literal. -/
  value : Option Int
  /-- The register that is read or written. -/
  register : Option Json
  /-- The declared range of an input or a field. -/
  bounds : Option (Int × Int)
  /-- A name for display. -/
  name : Option Json
  /-- The place that the node came from. -/
  span : Option Span

/-- A short description of a node: the literal, the register or the display name after the kind. -/
def labelText (kind : Kind) (value register name : Option Json) : String :=
  if kind = .const then "const " ++ (value.getD .null).plain
  else
    match register, name with
    | some register, _ => kind.name ++ " " ++ register.plain
    | none, some name => if name.isTrue then kind.name ++ " " ++ name.plain else kind.name
    | none, none => kind.name

namespace Operation

/-- An operation with nothing but a kind and operands. -/
def plain (kind : Kind) (operands : List Int) : Operation :=
  ⟨kind, operands, none, none, none, none, none⟩

/-- Whether two optional values are the same. -/
def sameValue : Option Json → Option Json → Bool
  | none, none => true
  | some a, some b => a.same b
  | _, _ => false

/-- Whether two operations agree in every part. -/
def same (a b : Operation) : Bool :=
  decide (a.kind = b.kind) && decide (a.operands = b.operands) && decide (a.value = b.value) &&
    sameValue a.register b.register && decide (a.bounds = b.bounds) && sameValue a.name b.name &&
    decide (a.span = b.span)

end Operation

/-- An operation with its id. -/
structure Node extends Operation where
  /-- The id, unique in a graph. -/
  id : Int

namespace Node

/-- Whether two nodes agree in every part. -/
def same (a b : Node) : Bool := decide (a.id = b.id) && a.toOperation.same b.toOperation

/-- Whether a node names a register. -/
def names (n : Node) (register : Json) : Bool := n.register.any (·.sameName register)

/-- The text that names the register of a node. -/
def registerName? (n : Node) : Option String :=
  match n.register with
  | some (.str s) => some s
  | _ => none

def label (n : Node) : String := labelText n.kind (n.value.map .int) n.register n.name

end Node

/-- A register. One with a width holds the integers with that many bits; one without is
unbounded. -/
structure Register where
  name : String
  /-- The value before the first clock tick. -/
  init : Int
  width : Option Int
  /-- Whether the values are in two's complement. -/
  signed : Bool
deriving DecidableEq, Repr, Inhabited

/-- The smallest and the largest value that a register holds, if it has a width. -/
def Register.range (r : Register) : Except Mishap (Option (Int × Int)) :=
  match r.width with
  | none => .ok none
  | some width => (bitRange width r.signed).map some

end Datapath
