import Datapath.Json.Order

/-!
# Sorting by document values

Values need not have an order, so sorting can fail, and which two values it fails on is part of the
message. Hence the order of comparisons matters: the longest run at the beginning is taken as it is,
turned round if it falls, and every further item is put in its place by halving. A comparison always
asks whether the later of two items is below the earlier one, so items of equal rank keep their
order.
-/

namespace Datapath.Sorting

variable {α : Type}

/-- A comparison that may fail. -/
abbrev Below (α : Type) := α → α → Except Mishap Bool

/-- The run that does not fall after an item, in reverse, and what follows it. -/
def rising (below : Below α) (last : α) (run : List α) : List α → Except Mishap (List α × List α)
  | [] => .ok (run, [])
  | x :: rest => do
    if ← below x last then return (run, x :: rest)
    rising below x (x :: run) rest

/-- The run that falls after an item, in reverse, and what follows it. -/
def falling (below : Below α) (last : α) (run : List α) : List α → Except Mishap (List α × List α)
  | [] => .ok (run, [])
  | x :: rest => do
    if ← below x last then falling below x (x :: run) rest
    else return (run, x :: rest)

/-- The place of a new item among sorted ones, which is known to lie between two places. The range
is halved until it is empty. -/
def findPlace (below : Below α) (sorted : List α) (x : α) (lo hi : Nat) : Except Mishap Nat :=
  if lo < hi then
    let middle := lo + (hi - lo) / 2
    match sorted[middle]? with
    | none => .ok lo
    | some y => do
      if ← below x y then findPlace below sorted x lo middle
      else findPlace below sorted x (middle + 1) hi
  else .ok lo
termination_by hi - lo

/-- Puts a new item in its place among sorted ones. -/
def insert (below : Below α) (sorted : List α) (x : α) : Except Mishap (List α) := do
  let place ← findPlace below sorted x 0 sorted.length
  return sorted.take place ++ x :: sorted.drop place

def sort (below : Below α) : List α → Except Mishap (List α)
  | a :: b :: rest => do
    let (run, rest) ←
      if ← below b a then falling below b [b, a] rest
      else do
        let (run, rest) ← rising below b [b, a] rest
        pure (run.reverse, rest)
    rest.foldlM (insert below) run
  | items => .ok items

end Datapath.Sorting

namespace Datapath.Json

/-- Sorts items by a document value that each of them has. -/
def sortBy {α : Type} (key : α → Json) (items : List α) : Except Mishap (List α) :=
  Sorting.sort (fun a b ↦ (key a).compare .less (key b)) items

end Datapath.Json
