/-!
# Strongly connected components

Tarjan's algorithm over any successor function. A depth-first search numbers the vertices in the
order in which it enters them and keeps those whose component is still open on a stack. When the
search leaves a vertex from which no earlier open vertex can be reached, that vertex and everything
above it on the stack form a component.

Components come out in reverse topological order: each appears after every component that can be
reached from it. Inside a component the vertices appear last entered first.

The search does not recurse. The vertices that it is in the middle of stand in a stack of frames,
each with the successors that it has not looked at yet. A round of the search enters a vertex or
leaves one, so twice as many rounds as there are vertices are enough; `bound` is at least the number
of vertices that can be reached, and a larger one changes nothing.
-/

namespace Datapath.Digraph

/-- The state of the search. -/
structure Search (α : Type) where
  /-- The vertices entered so far, last entered first. -/
  entered : List α
  /-- The vertices of open components, last entered first. -/
  stack : List α
  /-- The finished components, last finished first. -/
  finished : List (List α)
deriving Repr

/-- A vertex that the search is in the middle of. -/
structure Frame (α : Type) where
  vertex : α
  /-- The successors that have not been looked at. -/
  rest : List α
  /-- The least number of an open vertex that has been reached. -/
  low : Nat
deriving Repr

/-- Tells the first of some frames what was reached from the vertex above it. -/
def Frame.lowerFirst {α : Type} (low : Nat) : List (Frame α) → List (Frame α)
  | [] => []
  | f :: below => { f with low := min f.low low } :: below

namespace Search

variable {α : Type} [DecidableEq α]

/-- The state before the search. -/
def start : Search α := ⟨[], [], []⟩

/-- The number under which a vertex was entered, counted from zero. -/
def number (s : Search α) (v : α) : Nat := s.entered.reverse.idxOf v

/-- Enters a vertex. -/
def enter (s : Search α) (v : α) : Search α :=
  { s with entered := v :: s.entered, stack := v :: s.stack }

/-- Closes the component of a vertex: everything on the stack down to it. -/
def close (s : Search α) (v : α) : Search α :=
  let component := s.stack.take (s.stack.idxOf v + 1)
  { s with stack := s.stack.drop component.length, finished := component :: s.finished }

/-- Leaves a vertex, given the least number that was reached from it. Its component is closed if no
earlier vertex was reached. -/
def leave (s : Search α) (v : α) (low : Nat) : Search α :=
  if low = s.number v then s.close v else s

/-- Looks at some successors up to the first that has not been met, which comes first in the result
together with those after it. The least number reached is kept on the way. -/
def advance (s : Search α) : List α → Nat → Option (α × List α) × Nat
  | [], low => (none, low)
  | w :: ws, low =>
    if w ∈ s.entered then s.advance ws (if w ∈ s.stack then min low (s.number w) else low)
    else (some (w, ws), low)

/-- One round of the search, given the first frame and those below it: a new vertex is entered, or
the vertex of the first frame is left. -/
def round (successors : α → List α) (s : Search α) (f : Frame α) (below : List (Frame α)) :
    Search α × List (Frame α) :=
  match s.advance f.rest f.low with
  | (some (w, ws), low) =>
    (s.enter w, ⟨w, successors w, s.entered.length⟩ :: ⟨f.vertex, ws, low⟩ :: below)
  | (none, low) => (s.leave f.vertex low, Frame.lowerFirst low below)

/-- Goes on in rounds until no frame is left, for as many rounds as are allowed. -/
def work (successors : α → List α) : Nat → Search α → List (Frame α) → Search α
  | 0, s, _ => s
  | _ + 1, s, [] => s
  | fuel + 1, s, f :: below =>
    let (s, frames) := s.round successors f below
    work successors fuel s frames

/-- Searches everything that can be reached from a vertex, unless it has been met. -/
def explore (bound : Nat) (successors : α → List α) (s : Search α) (v : α) : Search α :=
  if v ∈ s.entered then s
  else (s.enter v).work successors (2 * bound) [⟨v, successors v, s.entered.length⟩]

end Search

/-- The strongly connected components that can be reached from some vertices. `bound` is at least
the number of vertices that can be reached. -/
def components {α : Type} [DecidableEq α] (bound : Nat) (successors : α → List α)
    (vertices : List α) : List (List α) :=
  (vertices.foldl (Search.explore bound successors) .start).finished.reverse

end Datapath.Digraph
