import Datapath.Mishap

/-!
# Machines

Arithmetic here is exact and knows no bound. A machine has two: an integer must fit into its memory,
and an integer that is put into words must not have too many decimal digits. How much memory there
is differs from machine to machine. What is known of all of them is that the digits of an integer
are counted, and that what cannot be counted cannot be stored.

Whoever is about to make an integer or to put one into words asks the machine first. What the
answers have to do with the analyses is said where the analyses are carried out on a machine.
-/

namespace Datapath

/-- The greatest exponent for which it can be said how much memory two to its power needs. -/
def greatestCountable : Nat := 30 * 2305843009213693944

/-- What a machine can do with integers. -/
structure Machine where
  /-- The greatest exponent for which two to its power fits into memory. -/
  memory : Nat
  /-- The most decimal digits of an integer that is put into words. -/
  digits : Nat
  /-- What fits into memory can be counted. -/
  memory_le : memory ≤ greatestCountable

namespace Machine

/-- The machine on which whatever can be counted fits into memory. -/
def roomy : Machine := ⟨greatestCountable, 4300, Nat.le_refl _⟩

/-- Why two to the power of an exponent cannot be made. -/
def powerMishap? (m : Machine) (exponent : Int) : Option Mishap :=
  if exponent ≤ m.memory then none
  else if exponent ≤ greatestCountable then some .outOfMemory
  else some .tooManyDigits

/-- An exponent that cannot be counted comes to the same mishap on every machine. -/
theorem powerMishap?_of_countable_lt {m : Machine} {exponent : Int}
    (h : greatestCountable < exponent) : m.powerMishap? exponent = some .tooManyDigits := by
  have hmemory := Int.ofNat_le.mpr m.memory_le
  rw [powerMishap?, if_neg (by omega), if_neg (by omega)]

/-- Why the range of a width cannot be calculated. -/
def rangeMishap? (m : Machine) (bits : Int) (signed : Bool) : Option Mishap :=
  m.powerMishap? (if signed then bits - 1 else bits)

/-- Why an integer cannot be made. -/
def integerMishap? (m : Machine) (n : Int) : Option Mishap := m.powerMishap? n.natAbs.log2

/-- Whether an integer can be put into words. -/
def writes (m : Machine) (n : Int) : Bool := n.natAbs < Nat.pow 10 m.digits

/-- A text that shows some integers, unless one of them cannot be put into words. -/
@[macro_inline] def wording (m : Machine) (shown : List Int) (text : String) : Option String :=
  if shown.all m.writes then some text else none

end Machine

end Datapath
