import Datapath.Double.Decimal
import Datapath.Text.Quoted

/-!
# Document values

Graphs and configurations arrive as JSON documents. A document value keeps what such a text says:
integers and doubles are told apart, and an object keeps the order of its keys. Two forms of text
come from a value besides JSON itself, and both appear in messages: its *display*, in which texts
are quoted, and its *plain* form, which differs only in that a text stands for itself.
-/

namespace Datapath

/-- A document value. Objects list each key once, in the order of first appearance. -/
inductive Json where
  | null
  | bool (value : Bool)
  /-- A number written without point and exponent. -/
  | int (value : Int)
  /-- Any other number. -/
  | real (value : Double)
  | str (value : String)
  | arr (items : List Json)
  | obj (entries : List (String × Json))
deriving Inhabited

namespace Json

/-! ## Equality -/

mutual

/-- Structural equality of values. -/
def same : Json → Json → Bool
  | .null, .null => true
  | .bool a, .bool b => a == b
  | .int a, .int b => a == b
  | .real a, .real b => decide (a = b)
  | .str a, .str b => a == b
  | .arr as, .arr bs => sameItems as bs
  | .obj as, .obj bs => sameEntries as bs
  | _, _ => false

def sameItems : List Json → List Json → Bool
  | [], [] => true
  | a :: as, b :: bs => same a b && sameItems as bs
  | _, _ => false

def sameEntries : List (String × Json) → List (String × Json) → Bool
  | [], [] => true
  | (k, a) :: as, (l, b) :: bs => k == l && same a b && sameEntries as bs
  | _, _ => false

end

instance : BEq Json := ⟨same⟩

/-! ## Integers -/

mutual

/-- The integers in a value, first to last. -/
def integers : Json → List Int
  | .int n => [n]
  | .arr items => itemIntegers items
  | .obj entries => entryIntegers entries
  | _ => []

def itemIntegers : List Json → List Int
  | [] => []
  | item :: items => integers item ++ itemIntegers items

def entryIntegers : List (String × Json) → List Int
  | [] => []
  | (_, value) :: entries => integers value ++ entryIntegers entries

end

/-- The integers that some values are, if all of them are integers. -/
def integers? (values : List Json) : Option (List Int) :=
  values.mapM fun | .int n => some n | _ => none

@[simp] theorem integers?_map (ns : List Int) : integers? (ns.map .int) = some ns := by
  induction ns with
  | nil => rfl
  | cons n ns ih =>
    rw [integers?] at ih ⊢
    rw [List.map_cons, List.mapM_cons, ih]
    rfl

/-! ## Objects -/

/-- Sets a key: a key that is already there keeps its place. -/
def setEntry (key : String) (value : Json) : List (String × Json) → List (String × Json)
  | [] => [(key, value)]
  | (k, v) :: rest => if k = key then (k, value) :: rest else (k, v) :: setEntry key value rest

/-- The entry of an object under a key. -/
def get? (key : String) : Json → Option Json
  | .obj entries => entries.lookup key
  | _ => none

/-! ## Kinds and truth -/

/-- The name of a value's kind, as messages give it. -/
def kindName : Json → String
  | .null => "NoneType"
  | .bool _ => "bool"
  | .int _ => "int"
  | .real _ => "float"
  | .str _ => "str"
  | .arr _ => "list"
  | .obj _ => "dict"

/-- Whether a value counts as true: it is neither null, nor false, nor zero, nor empty. -/
def isTrue : Json → Bool
  | .null => false
  | .bool b => b
  | .int n => n != 0
  | .real x => !x.isZero
  | .str s => !s.isEmpty
  | .arr items => !items.isEmpty
  | .obj entries => !entries.isEmpty

/-! ## Text forms -/

mutual

/-- The display of a value. -/
def display : Json → String
  | .null => "None"
  | .bool b => if b then "True" else "False"
  | .int n => toString n
  | .real x => x.toText
  | .str s => Text.quoted s
  | .arr items => "[" ++ ", ".intercalate (displayItems items) ++ "]"
  | .obj entries => "\x7b" ++ ", ".intercalate (displayEntries entries) ++ "\x7d"

def displayItems : List Json → List String
  | [] => []
  | item :: rest => item.display :: displayItems rest

def displayEntries : List (String × Json) → List String
  | [] => []
  | (key, value) :: rest => (Text.quoted key ++ ": " ++ value.display) :: displayEntries rest

end

/-- The plain form of a value: a text stands for itself. -/
def plain : Json → String
  | .str s => s
  | value => value.display

end Json

end Datapath
