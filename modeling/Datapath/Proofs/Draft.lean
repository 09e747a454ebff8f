import Datapath.Draft
import Datapath.Proofs.Graph.Run

/-!
# Drafts of graphs

A draft whose parts are all of the right kinds is a graph, and stays one: each step of a run does to
it what it does to the graph. So what holds of graphs in any run of steps holds of drafts.
-/

namespace Datapath

/-! ## Parts of the right kinds -/

/-- The register that an operation names, if it names one, is a text. -/
def Operation.NamesText (o : Operation) : Prop :=
  ∀ value, o.register = some value → ∃ s, value = .str s

/-- An operation as it is given to a draft. -/
def RoughOperation.ofOperation (o : Operation) : RoughOperation where
  kind := o.kind
  operands := .arr (o.operands.map .int)
  value := o.value.map .int
  register := o.register
  bounds := o.bounds.map fun range ↦ .arr [.int range.1, .int range.2]
  name := o.name
  place := o.span.map Span.place

private theorem RoughOperation.operation?_ofOperation {o : Operation} (h : o.NamesText) :
    (ofOperation o).operation? = some o := by
  have hall : o.register.all Json.isKey = true := by
    cases hregister : o.register with
    | none => rfl
    | some value =>
      obtain ⟨s, rfl⟩ := h value hregister
      rfl
  have hkey : (o.kind.isRegister && !o.register.all Json.isKey) = false := by
    rw [hall, Bool.not_true, Bool.and_false]
  simp only [operation?, ofOperation, Json.integers?_map, hkey]
  obtain ⟨kind, operands, value, register, bounds, name, span⟩ := o
  cases value <;> cases bounds <;> cases span <;> rfl

private theorem RoughRegister.register?_ofRegister (r : Register) :
    (ofRegister r).register? = some r := by
  obtain ⟨name, init, width, signed⟩ := r
  cases width <;> rfl

/-! ## Runs -/

namespace Draft

variable {m : Machine} {g : Graph}

/-- The register of an operation that is added is a text. -/
def Typed : Graph.Step → Prop
  | .add operation _ => operation.NamesText
  | _ => True

/-- What a step makes of a draft, and whether it succeeds. -/
def perform (m : Machine) (d : Draft) : Graph.Step → Draft × Except Failure Unit
  | .declare r =>
    let outcome := d.declare (.ofRegister r)
    (outcome.toOption.getD d, outcome.map fun _ ↦ ())
  | .add operation id? =>
    let after := d.add (.ofOperation operation) (id?.map .int)
    (after.1, after.2.map fun _ ↦ ())
  | .validate =>
    let after := d.validating m
    (after.1, after.2.map fun _ ↦ ())

/-- The draft after some steps from the empty one. A step that fails is followed by the next. -/
def run (m : Machine) (steps : List Graph.Step) : Draft :=
  steps.foldl (fun d step ↦ (d.perform m step).1) empty

/-- A step does to a graph in a draft what it does to the graph. -/
theorem perform_fair {step : Graph.Step} (h : Typed step) :
    (fair g).perform m step = (.fair (g.perform m step).1, (g.perform m step).2) := by
  cases step with
  | declare r =>
    simp only [perform, declare, RoughRegister.register?_ofRegister, Graph.perform]
    cases g.declare r <;> rfl
  | add o id? =>
    have ho := RoughOperation.operation?_ofOperation h
    rw [perform, Graph.perform]
    cases id? with
    | none =>
      simp only [add, Option.map_none, ho]
      cases g.add o none <;> rfl
    | some id =>
      simp only [add, Option.map_some, ho]
      cases g.add o (some id) <;> rfl
  | validate =>
    simp only [perform, Graph.perform, validating]
    cases (g.validating m).2 <;> rfl

/-- **A run of a draft is a run of a graph**, if every part is of the right kind. -/
theorem run_fair {steps : List Graph.Step} (h : ∀ step ∈ steps, Typed step) :
    run m steps = .fair (Graph.run m steps) := by
  induction steps using List.reverseRecOn with
  | nil => rfl
  | append_singleton steps step ih =>
    rw [List.forall_mem_append, List.forall_mem_singleton] at h
    rw [Graph.run_concat, run, List.foldl_append, ← run, ih h.1, List.foldl_cons, List.foldl_nil,
      perform_fair h.2]

end Draft

end Datapath
