/-!
# Shortest paths

Breadth-first search over a successor function. Every vertex that is met is noted with its *parent*,
the vertex from which it was met first. A path back to the source is then retraced from parent to
parent. Each vertex is queued at most once, so `fuel` need not exceed the number of vertices.
-/

namespace Datapath.Digraph

variable {α : Type} [DecidableEq α]

/-- The vertices met, each with its parent, in the order in which they were met. The source is not
among them. -/
abbrev Parents (α : Type) := List (α × α)

/-- The successors of a vertex that have not been met, each once, in order. -/
def fresh (seen : List α) : List α → List α
  | [] => []
  | w :: ws => if w ∈ seen then fresh seen ws else w :: fresh (w :: seen) ws

/-- The vertices that have been met from a source. -/
def Parents.met (source : α) (parents : Parents α) : List α := source :: parents.map (·.1)

/-- The vertices that are first met from a vertex. -/
def Parents.found (successors : α → List α) (source : α) (parents : Parents α) (u : α) : List α :=
  fresh (parents.met source) (successors u)

/-- The path from a vertex back to the source, at most `fuel` steps of it. -/
def Parents.retrace (parents : Parents α) : Nat → α → List α
  | 0, v => [v]
  | fuel + 1, v =>
    match parents.lookup v with
    | some u => v :: parents.retrace fuel u
    | none => [v]

/-- Takes vertices from the queue until one meets the goal. -/
def hunt (successors : α → List α) (goal : α → Bool) (source : α) :
    Nat → List α → Parents α → Option (α × Parents α)
  | 0, _, _ => none
  | _ + 1, [], _ => none
  | fuel + 1, u :: queue, parents =>
    if goal u then some (u, parents)
    else
      let found := parents.found successors source u
      hunt successors goal source fuel (queue ++ found) (parents ++ found.map (·, u))

/-- Takes vertices from the queue until the target has been met. -/
def spread (successors : α → List α) (source target : α) :
    Nat → List α → Parents α → Parents α
  | 0, _, parents => parents
  | _ + 1, [], parents => parents
  | fuel + 1, u :: queue, parents =>
    if target ∈ parents.met source then parents
    else
      let found := parents.found successors source u
      spread successors source target fuel (queue ++ found) (parents ++ found.map (·, u))

/-- A shortest path between two vertices, both ends included. -/
def shortestPath (fuel : Nat) (successors : α → List α) (source target : α) :
    Option (List α) :=
  let parents := spread successors source target fuel [source] []
  if target ∈ parents.met source then some (parents.retrace parents.length target).reverse
  else none

/-- A shortest cycle through a vertex. It starts and ends there, and runs against the direction of
the successor function. -/
def shortestCycle (fuel : Nat) (successors : α → List α) (start : α) : Option (List α) :=
  (hunt successors (fun u ↦ decide (start ∈ successors u)) start fuel [start] []).map
    fun (u, parents) ↦ start :: parents.retrace parents.length u

end Datapath.Digraph
