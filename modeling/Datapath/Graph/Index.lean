import Datapath.Graph.Malformed

/-!
# Indexes of nodes

A graph is asked for the consumers of a node and for the reads and writes of a register. It keeps a
table for each of the three, and every node that is added is entered: under each of its operands,
once for each use, and under the register that it reads or writes. Operands may name nodes that come
later, so a key need not belong to any node yet.
-/

namespace Datapath

/-- Node ids by key. Under each key stand those that were entered there, first to last. -/
abbrev Table (κ : Type) := List (κ × List Int)

namespace Table

variable {κ : Type} (same : κ → κ → Bool)

def listed (t : Table κ) (key : κ) : List Int := ((t.find? (same ·.1 key)).map (·.2)).getD []

def enter (key : κ) (id : Int) : Table κ → Table κ
  | [] => [(key, [id])]
  | (k, ids) :: rest =>
    if same k key then (k, ids ++ [id]) :: rest else (k, ids) :: enter key id rest

end Table

/-- The three tables of a graph. -/
structure Index where
  consumers : Table Int
  reads : Table Json
  writes : Table Json

namespace Index

def empty : Index := ⟨[], [], []⟩

/-- Enters a node under its register, if it names one. -/
def enterNamed (n : Node) (t : Table Json) : Table Json :=
  n.register.elim t fun register ↦ Table.enter Json.sameName register n.id t

def enter (x : Index) (n : Node) : Index where
  consumers := n.operands.foldl (fun t operand ↦ Table.enter (· == ·) operand n.id t) x.consumers
  reads := if n.kind = .regRead then enterNamed n x.reads else x.reads
  writes := if n.kind = .regWrite then enterNamed n x.writes else x.writes

/-- The tables of some nodes that are entered one after another. -/
def ofNodes (nodes : List Node) : Index := nodes.foldl enter empty

end Index

end Datapath
