import Datapath.Graph.Layout

/-!
# Registers beyond the memory of a machine

Validation calculates the range of every register on its way. This module says which mishap that
comes to on a machine, if any, before validation finds a fault.
-/

namespace Datapath

/-- Why the range of a register cannot be calculated. -/
def Register.mishap? (m : Machine) (r : Register) : Option Mishap :=
  r.width.bind (m.rangeMishap? · r.signed)

namespace Graph

/-- What happens on the way through some registers: nothing, or a mishap before any fault. -/
def sizeMishapIn (m : Machine) (g : Graph) : List Register → Option Mishap
  | [] => none
  | r :: rest =>
    match r.mishap? m with
    | some mishap => if 1 < (g.writes (.str r.name)).length then none else some mishap
    | none => if (g.registerFault r).isSome then none else g.sizeMishapIn m rest

/-- The mishap that validation comes to before it finds a fault. -/
def sizeMishap? (m : Machine) (g : Graph) : Option Mishap :=
  if (g.nodes.findSome? g.nodeFault).isSome then none else g.sizeMishapIn m g.registers

end Graph

end Datapath
