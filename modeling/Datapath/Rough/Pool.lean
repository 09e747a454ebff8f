import Datapath.Number

/-!
# Pools of ids

A pool holds items whose order does not matter, in a table with a power of two places. Every item
has a *spread*, a number that points at a place. If that place is taken, the places right after it
are tried, and then others that the higher digits of the spread lead to. A table that is more than
three fifths full is replaced by one about four times as large as the pool.

Going through a pool means going through its table. So the order is fixed, but it is neither that of
the items nor that in which they were put in.
-/

namespace Datapath

/-- The modulus of spreads. It is a prime next to a power of two, so the powers of two repeat. -/
def spreadModulus : Nat := (1 <<< 61) - 1

/-- The spread of a number: its remainder, with its sign. Numbers of equal value have the same
spread. -/
def Number.spread (n : Number) : Int :=
  let signed (negative : Bool) (m : Nat) : Int :=
    if negative then (if m = 1 then -2 else -m) else m
  match n.value with
  | .nan => 0
  | .infinite negative => signed negative 314159
  | .rational q =>
    -- the denominator is a power of two, whose inverse is another one
    let shift := (61 - Nat.log2 q.den % 61) % 61
    signed (q < 0) ((q.num.natAbs <<< shift) % spreadModulus)

/-- A table of items, each with its spread. -/
structure Pool (α : Type) where
  /-- The places of the table. -/
  places : List (Option (Nat × α))

namespace Pool

variable {α : Type}

/-- A pool without items and with a number of places. -/
def empty (size : Nat) : Pool α := ⟨List.replicate size none⟩

/-- How many places are tried right after the first one. -/
def neighbours : Nat := 9

/-- The first free place among some in a row. -/
def freeAmong (p : Pool α) (first count : Nat) : Option Nat :=
  (List.range' first count).find? fun place ↦ ((p.places[place]?).getD none).isNone

/-- The free place that a spread leads to, after at most `fuel` jumps. -/
def freePlace (p : Pool α) : (fuel place rest : Nat) → Nat
  | 0, place, _ => place
  | fuel + 1, place, rest =>
    let size := p.places.length
    let count := if place + neighbours < size then neighbours + 1 else 1
    match p.freeAmong place count with
    | some free => free
    | none =>
      let rest := rest / 32
      p.freePlace fuel ((place * 5 + 1 + rest) % size) rest

/-- Puts an item into the table. -/
def put (p : Pool α) (entry : Nat × α) : Pool α :=
  let size := p.places.length
  ⟨p.places.set (p.freePlace (size + 64) (entry.1 % size) entry.1) (some entry)⟩

def entries (p : Pool α) : List (Nat × α) := p.places.filterMap id

/-- The smallest power of two that is at least eight and above a number. -/
def sizeAbove (n : Nat) : Nat := max 8 (1 <<< (Nat.log2 n + 1))

/-- A larger table, if a pool has become too full. -/
def grown (p : Pool α) : Pool α :=
  let used := p.entries.length
  if used * 5 < (p.places.length - 1) * 3 then p
  else p.entries.foldl put (empty (sizeAbove (used * 4)))

/-- The items in the order of a pool that they are put into one after another. -/
def order (spread : α → Int) (items : List α) : List α :=
  let pool := items.foldl
    (fun p item ↦ (p.put ((spread item % (1 <<< 64 : Nat)).toNat, item)).grown) (empty 8)
  pool.entries.map (·.2)

end Pool

end Datapath
