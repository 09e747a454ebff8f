import Datapath.Graph.Layout
import Datapath.Tuning

/-!
# Width inference

Each node gets an interval that contains every value it can take in any clock cycle. The components
of the dependencies are solved one after another. A component of one node is a single evaluation. A
feedback loop is iterated: the reads of its register are set to a *seed*, the loop is evaluated, and
the seed grows to cover what is written, until nothing new is written.

## Growth

Seeds only grow. After a delay, the seed of a register with a declared width is widened to the range
of that width, so such a loop always settles. The seed of a register without a width may grow for
ever; the iteration limit then reports a divergence instead of a wrong width.

## What is kept

The seeds of every loop are kept as its history. A failure keeps the histories of the loops that
settled before it, and a divergence also that of the loop that did not.

## Machines

Everything but the evaluation of a single node is written for an arbitrary evaluator. With
`transfer` it is inference in exact arithmetic, and that is what `Graph.infer` is. With `transferOn`
it is inference on a machine, which stops at the first integer that the machine cannot make.
-/

namespace Datapath

/-- Intervals by node id; the latest entry for an id counts. -/
abbrev Env := List (Int × Interval)

/-- A feedback loop that did not settle. -/
structure Divergence where
  /-- The register of the loop. -/
  register : String
  cycle : List Int
  /-- The seeds, first to last. -/
  history : List Interval
  /-- The number of evaluations. -/
  iterations : Int

namespace Divergence

/-- The last seed. -/
def current (d : Divergence) : Interval := d.history.getLast?.getD default

/-- The seed before the last. -/
def previous (d : Divergence) : Interval := d.history.dropLast.getLast?.getD default

end Divergence

/-- What is inferred about a graph, with names of registers and ranges of any type. -/
structure InferenceOf (ν α : Type) where
  /-- The range of each node, in node order. -/
  nodes : List (Int × α)
  /-- The values that each register can hold, in the order in which they were found. -/
  registers : List (ν × α)
  /-- The seeds of each feedback loop, in the order in which the loops were solved. -/
  histories : List (ν × List α)

/-- The intervals of a graph. -/
abbrev Inference := InferenceOf String Interval

namespace InferenceOf

variable {ν α : Type}

/-- The number of evaluations of each feedback loop. -/
def iterations (r : InferenceOf ν α) : List (ν × Nat) :=
  r.histories.map fun (register, history) ↦ (register, history.length)

/-- The number of evaluations of the slowest loop; one if there is none. -/
def passes (r : InferenceOf ν α) : Nat :=
  match r.iterations.map (·.2) with
  | [] => 1
  | n :: ns => ns.foldl max n

/-- The size of a result in words. -/
def describe (r : InferenceOf ν α) : String :=
  s!"IntervalResult(nodes={r.nodes.length}, passes={r.passes})"

end InferenceOf

namespace Inference

/-- Why inference fails. -/
inductive Failure where
  /-- The graph is not legal. -/
  | malformed (cause : Malformed)
  /-- A feedback loop did not settle; the histories of the loops before it are kept. -/
  | diverged (settled : List (String × List Interval)) (divergence : Divergence)
  /-- A value is not there when it is needed; the histories of the loops before it are kept. -/
  | mishap (settled : List (String × List Interval)) (cause : Mishap)

/-! ## Evaluating one node -/

/-- What evaluation has found so far. -/
structure State where
  env : Env
  values : List (String × Interval)
  histories : List (String × List Interval)

/-- The interval of a node that has been evaluated. -/
def lookup (env : Env) (id : Int) : Except Mishap Interval :=
  match env.lookup id with
  | some interval => .ok interval
  | none => .error (.noSuchNode id)

/-- A register that has been declared. -/
def declared (g : Graph) (name : String) : Except Mishap Register :=
  match g.register? name with
  | some register => .ok register
  | none => .error (.unresolved name)

/-- The values that a register holds when nothing feeds back into it: the initial one, and whatever
its write produces. -/
def heldValues (g : Graph) (env : Env) (r : Register) : Except Mishap Interval :=
  match g.write? (.str r.name) with
  | none => .ok (Interval.point r.init)
  | some write => do
    let written ← lookup env write
    return (Interval.point r.init).join written

/-- The values that a register holds: those found already, or else those it holds without
feedback. -/
def registerValues (g : Graph) (env : Env) (values : List (String × Interval)) (name : String) :
    Except Mishap Interval :=
  match values.lookup name with
  | some interval => .ok interval
  | none => do heldValues g env (← declared g name)

/-- The values of a register write: the operand, wrapped into the range of the register. -/
def written (g : Graph) (name : String) (a : Interval) : Except Mishap Interval := do
  let register ← declared g name
  match ← register.range with
  | none => return a
  | some (lo, hi) => a.wrap lo hi

/-- The interval of a node from the intervals of its operands, in exact arithmetic. -/
def transfer (g : Graph) (t : Tuning) (env : Env) (values : List (String × Interval)) (n : Node) :
    Except Mishap Interval := do
  let operands ← n.operands.mapM (lookup env)
  match n.kind, operands with
  | .const, _ =>
    match n.value with
    | some value => return Interval.point value
    | none => throw (.unresolved "literal")
  | .input, _ =>
    match n.bounds with
    | some (lo, hi) => Interval.make lo hi
    | none => t.inputInterval
  | .add, a :: b :: _ => return a.add b
  | .sub, a :: b :: _ => return a.sub b
  | .mul, a :: b :: _ => return a.mul b
  | .div, a :: b :: _ => return a.div b
  | .compare, a :: b :: _ => return a.compare b
  | .mux, _ :: branches => Interval.hull branches
  | .varRef, a :: _ => return a
  | .binding, a :: _ => return a
  | .output, a :: _ => return a
  | .fieldGet, a :: _ =>
    match n.bounds with
    | some (lo, hi) => Interval.make lo hi
    | none => return a
  | .regWrite, a :: _ =>
    match n.registerName? with
    | some name => written g name a
    | none => throw (.unresolved "register")
  | .regRead, _ =>
    match n.registerName? with
    | some name => registerValues g env values name
    | none => throw (.unresolved "register")
  | _, _ => throw (.unresolved "operand")

/-- The integers that an operation makes from the ends of its operands, in the order in which it
makes them. Those that are no larger than one it is given are left out. -/
def made : Kind → List Interval → List Int
  | .add, a :: b :: _ => [a.lo + b.lo, a.hi + b.hi]
  | .sub, a :: b :: _ => [a.lo - b.hi, a.hi - b.lo]
  | .mul, a :: b :: _ => [a.lo * b.lo, a.lo * b.hi, a.hi * b.lo, a.hi * b.hi]
  | _, _ => []

/-- Why a machine cannot evaluate a node on the intervals of its operands. An input without a
declared range is evaluated by calculating that of its width. -/
def obstacle? (m : Machine) (t : Tuning) (n : Node) (operands : List Interval) : Option Mishap :=
  if n.kind = .input && n.bounds.isNone then m.rangeMishap? t.inputBits t.inputSigned
  else (made n.kind operands).findSome? m.integerMishap?

/-- How the interval of a node is found, given the intervals of nodes and the values of
registers. -/
abbrev Evaluator := Env → List (String × Interval) → Node → Except Mishap Interval

/-- The interval of a node as a machine finds it. -/
def transferOn (m : Machine) (g : Graph) (t : Tuning) : Evaluator := fun env values n ↦ do
  let operands ← n.operands.mapM (lookup env)
  match obstacle? m t n operands with
  | some mishap => throw mishap
  | none => transfer g t env values n

def nodeAt (g : Graph) (id : Int) : Except Mishap Node :=
  match g.node? id with
  | some n => .ok n
  | none => .error (.noSuchNode id)

/-! ## Feedback loops -/

/-- One evaluation of a loop with its reads at a seed. -/
def passBy (evaluate : Evaluator) (g : Graph) (s : State) (loop : FeedbackLoop) (seed : Interval) :
    Except Mishap Env :=
  loop.nodes.foldlM (fun env id ↦
    if id ∈ loop.reads then .ok ((id, seed) :: env)
    else do
      let n ← nodeAt g id
      return (id, ← evaluate env s.values n) :: env) s.env

/-- The next seed of a loop, from the seed and what was written in the given evaluation. -/
def grow (t : Tuning) (thresholds : List Int) (iteration : Int) (seed written : Interval) :
    Interval :=
  if t.wideningDelay < iteration && !thresholds.isEmpty then seed.widen written thresholds
  else seed.join written

/-- Evaluates a loop until nothing new is written, at most `fuel` more times. The history is in
reverse and starts with the seed. -/
def settleBy (evaluate : Evaluator) (g : Graph) (t : Tuning) (s : State) (loop : FeedbackLoop)
    (thresholds : List Int) :
    (fuel : Nat) → (iteration : Int) → (seed : Interval) → (history : List Interval) →
    Except Failure (Env × List Interval)
  | 0, _, _, history =>
    .error (.diverged s.histories
      { register := loop.register
        cycle := loop.nodes
        history := history.reverse
        iterations := t.maxIterations })
  | fuel + 1, iteration, seed, history =>
    match passBy evaluate g s loop seed with
    | .error cause => .error (.mishap s.histories cause)
    | .ok env =>
      match lookup env loop.write with
      | .error cause => .error (.mishap s.histories cause)
      | .ok written =>
        if written.leq seed then .ok (env, history.reverse)
        else
          let seed := grow t thresholds iteration seed written
          settleBy evaluate g t s loop thresholds fuel (iteration + 1) seed (seed :: history)

/-- The thresholds of a register: the ends of its range. -/
def thresholds (r : Register) : Except Mishap (List Int) :=
  r.range.map fun
    | some (lo, hi) => [min lo hi, max lo hi]
    | none => []

/-- Solves a feedback loop. -/
def solveLoopBy (evaluate : Evaluator) (g : Graph) (t : Tuning) (s : State) (loop : FeedbackLoop) :
    Except Failure State := do
  let register ← (declared g loop.register).mapError (.mishap s.histories)
  let thresholds ← (thresholds register).mapError (.mishap s.histories)
  let seed := Interval.point register.init
  let (env, history) ← settleBy evaluate g t s loop thresholds t.maxIterations.toNat 1 seed [seed]
  return {
    env
    values := s.values ++ [(loop.register, history.getLast?.getD seed)]
    histories := s.histories ++ [(loop.register, history)] }

/-! ## The whole graph -/

/-- The values of a register, recorded when they are first asked for. -/
def record (values : List (String × Interval)) (name : String) (interval : Interval) :
    List (String × Interval) :=
  if (values.lookup name).isSome then values else values ++ [(name, interval)]

/-- Evaluates a node that is in no loop. -/
def solveNodeBy (evaluate : Evaluator) (g : Graph) (s : State) (id : Int) :
    Except Mishap State := do
  let n ← nodeAt g id
  let interval ← evaluate s.env s.values n
  let values :=
    match n.kind, n.registerName? with
    | .regRead, some name => record s.values name interval
    | _, _ => s.values
  return { s with env := (id, interval) :: s.env, values }

/-- Solves a component of the dependencies. -/
def solveComponentBy (evaluate : Evaluator) (g : Graph) (t : Tuning) (loops : List FeedbackLoop)
    (s : State) (component : List Int) : Except Failure State :=
  match component with
  | [id] => (solveNodeBy evaluate g s id).mapError (.mishap s.histories)
  | [] => .ok s
  | id :: _ =>
    match loops.find? (·.nodes.contains id) with
    | some loop => solveLoopBy evaluate g t s loop
    | none => .error (.mishap s.histories (.noSuchNode id))

/-- Adds the values of the registers that nobody asked for. -/
def completeRegisters (g : Graph) (s : State) : Except Mishap (List (String × Interval)) :=
  g.registers.foldlM (fun values r ↦
    if (values.lookup r.name).isSome then .ok values
    else do return values ++ [(r.name, ← heldValues g s.env r)]) s.values

/-- Infers the interval of every node and register. -/
def inferBy (evaluate : Evaluator) (g : Graph) (t : Tuning) : Except Failure Inference := do
  let layout ← g.layout.mapError .malformed
  let state ← layout.components.foldlM (solveComponentBy evaluate g t layout.loops) ⟨[], [], []⟩
  let registers ← (completeRegisters g state).mapError (.mishap state.histories)
  let nodes ← (g.ids.mapM fun id ↦ do return (id, ← lookup state.env id)).mapError
    (.mishap state.histories)
  return { nodes, registers, histories := state.histories }

/-! ## Exact arithmetic -/

section

variable (g : Graph) (t : Tuning) (s : State)

/-- One evaluation of a loop in exact arithmetic. -/
def pass (loop : FeedbackLoop) (seed : Interval) : Except Mishap Env :=
  passBy (transfer g t) g s loop seed

/-- Evaluates a loop in exact arithmetic until nothing new is written, at most `fuel` more times. -/
def settle (loop : FeedbackLoop) (thresholds : List Int) (fuel : Nat) (iteration : Int)
    (seed : Interval) (history : List Interval) : Except Failure (Env × List Interval) :=
  settleBy (transfer g t) g t s loop thresholds fuel iteration seed history

/-- Solves a feedback loop in exact arithmetic. -/
def solveLoop (loop : FeedbackLoop) : Except Failure State := solveLoopBy (transfer g t) g t s loop

/-- Evaluates a node that is in no loop in exact arithmetic. -/
def solveNode (id : Int) : Except Mishap State := solveNodeBy (transfer g t) g s id

end

/-- Solves a component of the dependencies in exact arithmetic. -/
def solveComponent (g : Graph) (t : Tuning) (loops : List FeedbackLoop) (s : State)
    (component : List Int) : Except Failure State :=
  solveComponentBy (transfer g t) g t loops s component

end Inference

/-- Infers the interval of every node and register in exact arithmetic. -/
def Graph.infer (g : Graph) (t : Tuning) : Except Inference.Failure Inference :=
  Inference.inferBy (Inference.transfer g t) g t

/-- Infers the interval of every node and register on a machine. -/
def Graph.inferOn (m : Machine) (g : Graph) (t : Tuning) : Except Inference.Failure Inference :=
  Inference.inferBy (Inference.transferOn m g t) g t

end Datapath
