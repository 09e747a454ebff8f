import Datapath.Inference
import Datapath.Knobs
import Datapath.Rough.Layout

/-!
# Width inference on rough graphs

The inference of `Graph.infer` with extents in place of intervals and knobs as they were given. A
value of the wrong kind is noticed when the node that has it is evaluated, a knob when it is used.
Widths are not computed here: an extent need not have one.
-/

namespace Datapath.RoughGraph

/-- Extents by the numbers of nodes; the latest entry for a number counts. -/
abbrev Env := List (Int × Extent)

/-- Extents by the names of registers, each as it was first given. -/
abbrev Values := List (Json × Extent)

/-- What evaluation has found so far. -/
structure State where
  env : Env
  values : Values
  histories : List (Json × List Extent)

/-- The extent of a node that has been evaluated. -/
def extentAt (g : RoughGraph) (env : Env) (number : Int) : Except Mishap Extent :=
  match env.lookup number with
  | some extent => .ok extent
  | none => .error (.noSuchKey (g.idOf number))

/-- The extent of an operand. -/
def extentOf (g : RoughGraph) (env : Env) (operand : Json) : Except Mishap Extent :=
  match (g.numberOf? operand).bind (env.lookup ·) with
  | some extent => .ok extent
  | none => .error (.noSuchKey operand)

def declared (g : RoughGraph) (name : Json) : Except Mishap RoughRegister := do
  match ← g.register? name with
  | some register => return register
  | none => throw (.noSuchKey name)

/-- The extent of a declared range. -/
def ofBounds : List Json → Except Mishap Extent
  | [lo, hi] => Extent.make lo hi
  | bounds => .error (.tooManyEnds bounds.length)

/-- The values that a register holds when nothing feeds back into it. -/
def heldValues (g : RoughGraph) (env : Env) (r : RoughRegister) : Except Mishap Extent := do
  let held ← Extent.point r.init
  match (g.listedNumbers .regWrite r.name).head? with
  | none => return held
  | some write => held.join (← g.extentAt env write)

/-- The values found for a register. -/
def known? (values : Values) (name : Json) : Option Extent :=
  (values.find? (·.1.sameName name)).map (·.2)

/-- The values that a register holds: those found already, or else those it holds without
feedback. -/
def registerValues (g : RoughGraph) (env : Env) (values : Values) (name : Json) :
    Except Mishap Extent :=
  match known? values name with
  | some extent => .ok extent
  | none => do g.heldValues env (← g.declared name)

/-- The extent of a node from the extents of its operands. -/
def transfer (m : Machine) (g : RoughGraph) (k : Knobs) (env : Env) (values : Values)
    (n : RoughNode) :
    Except Mishap Extent := do
  let operands ← n.operands.mapM (g.extentOf env)
  let register := n.register.getD .null
  if let some mishap := (operands.mapM Extent.interval?).bind fun intervals ↦
      (Inference.made n.kind intervals).findSome? m.integerMishap? then throw mishap
  match n.kind, operands with
  | .const, _ => Extent.point (n.value.getD .null)
  | .input, _ => n.bounds.elim (k.inputExtent m) ofBounds
  | .add, a :: b :: _ => a.add b
  | .sub, a :: b :: _ => a.sub b
  | .mul, a :: b :: _ => a.mul b
  | .div, a :: b :: _ => a.div b
  | .compare, _ :: _ :: _ => return .ofInterval .boolean
  | .mux, _ :: branches => Extent.hull branches
  | .varRef, a :: _ => return a
  | .binding, a :: _ => return a
  | .output, a :: _ => return a
  | .fieldGet, a :: _ => n.bounds.elim (.ok a) ofBounds
  | .regWrite, a :: _ =>
    match ← (← g.declared register).range m with
    | none => return a
    | some (lo, hi) => a.wrap (.int lo) (.int hi)
  | .regRead, _ => g.registerValues env values register
  | _, _ => throw (.unresolved "operand")

def nodeAt (g : RoughGraph) (number : Int) : Except Mishap RoughNode :=
  match g.nodeAt? number with
  | some n => .ok n
  | none => .error (.noSuchNode number)

/-! ## Feedback loops -/

/-- One evaluation of a loop with its reads at a seed. -/
def pass (m : Machine) (g : RoughGraph) (k : Knobs) (s : State) (loop : RoughLoop) (seed : Extent) :
    Except Mishap Env :=
  loop.nodes.foldlM (fun env number ↦
    if number ∈ loop.reads then .ok ((number, seed) :: env)
    else do return (number, ← g.transfer m k env s.values (← g.nodeAt number)) :: env) s.env

/-- The next seed of a loop. -/
def grow (k : Knobs) (thresholds : List Int) (iteration : Int) (seed written : Extent) :
    Except Mishap Extent := do
  let late ← (Json.int iteration).compare .greater k.wideningDelay
  if late && !thresholds.isEmpty then seed.widen written (.arr (thresholds.map .int))
  else seed.join written

/-- The failure of a loop that did not settle, given its seeds in reverse. -/
def divergence (g : RoughGraph) (k : Knobs) (loop : RoughLoop) (history : List Extent) :
    Failure :=
  let current := history.head?.getD default
  let previous := history.tail.head?.getD default
  .rough (.diverged loop.register (loop.nodes.map g.idOf) previous.ends current.ends
    k.maxIterations)

/-- Evaluates a loop until nothing new is written, at most `fuel` more times. The history is in
reverse and starts with the seed. -/
def settle (m : Machine) (g : RoughGraph) (k : Knobs) (s : State) (loop : RoughLoop)
    (thresholds : List Int) :
    (fuel : Nat) → (iteration : Int) → (seed : Extent) → (history : List Extent) →
    Except Failure (Env × List Extent)
  | 0, _, _, history => .error (g.divergence k loop history)
  | fuel + 1, iteration, seed, history => do
    let env ← tried (g.pass m k s loop seed)
    let written ← tried (g.extentAt env loop.write)
    if ← tried (written.leq seed) then return (env, history.reverse)
    let seed ← tried (grow k thresholds iteration seed written)
    settle m g k s loop thresholds fuel (iteration + 1) seed (seed :: history)

/-- A knob that counts something. -/
def count (value : Json) : Except Mishap Nat :=
  match value.integer? with
  | some n => .ok n.toNat
  | none => .error (.notACount value.kindName)

/-- Solves a feedback loop. -/
def solveLoop (m : Machine) (g : RoughGraph) (k : Knobs) (s : State) (loop : RoughLoop) :
    Except Failure State := do
  let register ← tried (g.declared loop.register)
  let thresholds := match ← tried (register.range m) with
    | some (lo, hi) => [min lo hi, max lo hi]
    | none => []
  let seed ← tried (Extent.point register.init)
  let fuel ← tried (count k.maxIterations)
  let (env, history) ← g.settle m k s loop thresholds fuel 1 seed [seed]
  return {
    env
    values := s.values ++ [(loop.register, history.getLast?.getD seed)]
    histories := s.histories ++ [(loop.register, history)] }

/-! ## The whole graph -/

/-- The values of a register, recorded when they are first asked for. -/
def record (values : Values) (name : Json) (extent : Extent) : Values :=
  if (known? values name).isSome then values else values ++ [(name, extent)]

def solveNode (m : Machine) (g : RoughGraph) (k : Knobs) (s : State) (number : Int) :
    Except Mishap State := do
  let n ← g.nodeAt number
  let extent ← g.transfer m k s.env s.values n
  let values :=
    match n.kind, n.register with
    | .regRead, some name => record s.values name extent
    | _, _ => s.values
  return { s with env := (number, extent) :: s.env, values }

def solveComponent (m : Machine) (g : RoughGraph) (k : Knobs) (loops : List RoughLoop)
    (s : State) (component : List Int) : Except Failure State :=
  match component with
  | [number] => tried (g.solveNode m k s number)
  | [] => .ok s
  | number :: _ =>
    match loops.find? (·.nodes.contains number) with
    | some loop => g.solveLoop m k s loop
    | none => .error (.mishap (.noSuchKey (g.idOf number)))

/-- Adds the values of the registers that nobody asked for. -/
def completeRegisters (g : RoughGraph) (s : State) : Except Mishap Values :=
  g.registers.foldlM (fun values r ↦
    if (known? values r.name).isSome then .ok values
    else do return values ++ [(r.name, ← g.heldValues s.env r)]) s.values

/-- Infers the extent of every node, by its number, and of every register. -/
def infer (m : Machine) (g : RoughGraph) (k : Knobs) :
    Except Failure (InferenceOf Json Extent) := do
  let layout ← g.layout m
  let state ← layout.components.foldlM (g.solveComponent m k layout.loops) ⟨[], [], []⟩
  let registers ← tried (g.completeRegisters state)
  let nodes ← tried (g.numbered.mapM fun (_, number) ↦ do
    return (number, ← g.extentAt state.env number))
  return { nodes, registers, histories := state.histories }

end Datapath.RoughGraph
