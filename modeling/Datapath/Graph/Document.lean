import Datapath.Graph.Basic
import Datapath.Json.Reader
import Datapath.Json.Reading

/-!
# Graphs as documents

A graph is exchanged as a document with a list of registers and a list of nodes. Only the id and the
kind of a node are required. Decoding refuses what it cannot read and leaves legality to validation;
it builds the graph entry by entry, so a repeated name or id is reported as the builder reports it.

Encoding writes every part that is present, and the signedness of a register only with a width.
-/

namespace Datapath

/-- Why a document is no graph. -/
inductive BadDocument where
  /-- The document is no object. -/
  | notAnObject
  /-- An entry lacks a key. -/
  | missingKey (place key : String)
  /-- An entry is no object. -/
  | notAnEntry (place : String)
  | unknownKind (place : String) (kind : Json)
  /-- A span is no object. -/
  | badSpan (place : String)
  /-- A value has no reading of the kind that its place asks for. -/
  | badValue (place : String) (cause : Mishap)
  /-- A file holds no document. -/
  | noDocument (path : String) (error : Json.ReadError)
  | noSuchFile (path : String)

/-- The wording of a cause. -/
def BadDocument.message : BadDocument → String
  | .notAnObject => "interchange document must be a JSON object"
  | .missingKey place key => s!"{place}: missing required key '{key}'"
  | .notAnEntry place => s!"{place}: expected an object"
  | .unknownKind place kind => s!"{place}: unknown kind {kind.display}"
  | .badSpan place => s!"{place}: span must be an object"
  | .badValue place cause => s!"{place}: {cause.message}"
  | .noDocument path error => s!"{path}: invalid JSON: {error.message}"
  | .noSuchFile path => s!"graph file not found: {path}"

/-- The values that a cause shows in its wording. -/
def BadDocument.values : BadDocument → List Json
  | .unknownKind _ kind => [kind]
  | _ => []

namespace Graph

/-- Why decoding fails. -/
inductive DecodeFailure where
  /-- The document is no graph. -/
  | document (cause : BadDocument)
  /-- A name or an id is repeated. -/
  | malformed (cause : Malformed)
  /-- A value of a kind that nobody expects. -/
  | mishap (cause : Mishap)

/-! ## Decoding -/

/-- Whether a mishap in an entry is reported with the place of the entry. Infinities and look-ups in
objects are not. -/
def isLocated : Mishap → Bool
  | .infinityAsInteger => false
  | .noSuchIndex _ => false
  | _ => true

/-- Reports a mishap with its place. -/
def locate {α : Type} (place : String) : Except Mishap α → Except DecodeFailure α
  | .ok value => .ok value
  | .error cause =>
    if isLocated cause then .error (.document (.badValue place cause)) else .error (.mishap cause)

/-- A value that must be there. -/
def required (entry : Json) (key place : String) : Except DecodeFailure Json :=
  match entry.get? key with
  | some value => .ok value
  | none => .error (.document (.missingKey place key))

/-- A value that may be missing or null. -/
def optional (entry : Json) (key : String) : Option Json :=
  match entry.get? key with
  | some .null => none
  | other => other

/-- An integer that may be missing or null. -/
def optionalInt (entry : Json) (key : String) : Except Mishap (Option Int) :=
  match optional entry key with
  | none => .ok none
  | some value => value.toInt.map some

def decodeSpan (place : String) (raw : Json) : Except DecodeFailure Span :=
  match raw with
  | .obj _ => locate place do
      let line ← ((raw.get? "line").getD (.int 0)).toInt
      let column ← ((raw.get? "column").getD (.int 0)).toInt
      return { file := ((raw.get? "file").getD (.str "")).plain, line, column }
  | _ => .error (.document (.badSpan place))

def decodeBounds (raw : Json) : Except Mishap (Int × Int) := do
  let lo ← (← raw.item 0).toInt
  let hi ← (← raw.item 1).toInt
  return (lo, hi)

/-- Whether an entry of an array is an object. -/
def isObject : Json → Bool
  | .obj _ => true
  | _ => false

/-- Decodes a register and declares it. -/
def decodeRegister (g : Graph) (index : Nat) (entry : Json) : Except DecodeFailure Graph := do
  let place := s!"registers[{index}]"
  if !isObject entry then throw (.document (.notAnEntry place))
  let name ← required entry "name" place
  let init ← locate place ((entry.get? "init").getD (.int 0)).toInt
  let width ← locate place (optionalInt entry "width")
  let signed := ((entry.get? "signed").getD (.bool false)).isTrue
  (g.declare { name := name.plain, init, width, signed }).mapError .malformed

def decodeKind (place : String) (raw : Json) : Except DecodeFailure Kind :=
  let kind? := match raw with
    | .str name => Kind.ofName? name
    | _ => none
  match kind? with
  | some kind => .ok kind
  | none => .error (.document (.unknownKind place raw))

/-- Decodes the parts of a node other than its kind. -/
def decodeOperation (place : String) (kind : Kind) (entry : Json) :
    Except DecodeFailure (Operation × Int) := do
  let id ← locate place (← required entry "id" place).toInt
  let items ← locate place ((entry.get? "operands").getD (.arr [])).toItems
  let operands ← locate place (items.mapM Json.toInt)
  let value ← locate place (optionalInt entry "value")
  let bounds ← match optional entry "bounds" with
    | none => pure none
    | some raw => do pure (some (← locate place (decodeBounds raw)))
  let span ← match entry.get? "span" with
    | none => pure none
    | some raw => do pure (some (← decodeSpan place raw))
  return ({ kind, operands, value, register := optional entry "register", bounds
            name := optional entry "name", span }, id)

/-- Whether the register of an operation can be looked up. -/
def registerIsKey (operation : Operation) : Bool :=
  !operation.kind.isRegister || operation.register.all Json.isKey

/-- Decodes a node and adds it. -/
def decodeNode (g : Graph) (index : Nat) (entry : Json) : Except DecodeFailure Graph := do
  let place := s!"nodes[{index}]"
  if !isObject entry then throw (.document (.notAnEntry place))
  let kind ← decodeKind place (← required entry "kind" place)
  let (operation, id) ← decodeOperation place kind entry
  let (g, _) ← (g.add operation (some id)).mapError .malformed
  if registerIsKey operation then return g
  else throw (.document (.badValue place
    (.unhashable ((operation.register.getD Json.null).kindName))))

/-- Folds over the items that a value lists, with their indices. -/
def decodeEach (step : Graph → Nat → Json → Except DecodeFailure Graph) (g : Graph)
    (raw : Json) : Except DecodeFailure Graph := do
  let items ← raw.toItems.mapError .mishap
  let (g, _) ← items.foldlM (fun (g, index) entry ↦ do return (← step g index entry, index + 1))
    (g, 0)
  return g

/-- The graph of a document. -/
def ofDocument (document : Json) : Except DecodeFailure Graph := do
  if !isObject document then throw (.document .notAnObject)
  let g ← decodeEach decodeRegister empty ((document.get? "registers").getD (.arr []))
  decodeEach decodeNode g ((document.get? "nodes").getD (.arr []))

/-! ## Encoding -/

/-- The parts of a register as a document. -/
def registerDocument (name init : Json) (width : Option Json) (signed : Json) : Json :=
  .obj <| [("name", name), ("init", init)] ++
    (width.elim [] fun width ↦ [("width", width), ("signed", signed)])

def encodeRegister (r : Register) : Json :=
  registerDocument (.str r.name) (.int r.init) (r.width.map .int) (.bool r.signed)

/-- A place as a document. -/
def encodePlace (p : Place) : Json :=
  .obj [("file", p.file), ("line", p.line), ("column", p.column)]

/-- The parts of a node as a document. -/
def nodeDocument (id : Json) (kind : Kind) (operands : List Json) (value register : Option Json)
    (bounds : Option (List Json)) (name : Option Json) (place : Option Place) : Json :=
  .obj <| [("id", id), ("kind", .str kind.name)] ++
    (if operands.isEmpty then [] else [("operands", .arr operands)]) ++
    (value.elim [] fun value ↦ [("value", value)]) ++
    (register.elim [] fun register ↦ [("register", register)]) ++
    (bounds.elim [] fun bounds ↦ [("bounds", .arr bounds)]) ++
    (name.elim [] fun name ↦ [("name", name)]) ++
    (place.elim [] fun place ↦ [("span", encodePlace place)])

def encodeNode (n : Node) : Json :=
  nodeDocument (.int n.id) n.kind (n.operands.map .int) (n.value.map .int) n.register
    (n.bounds.map fun (lo, hi) ↦ [.int lo, .int hi]) n.name (n.span.map Span.place)

/-- Registers and nodes as a document. -/
def document (registers nodes : List Json) : Json :=
  .obj [("version", .int 1), ("registers", .arr registers), ("nodes", .arr nodes)]

def toDocument (g : Graph) : Json :=
  document (g.registers.map encodeRegister) (g.nodes.map encodeNode)

end Graph

end Datapath
