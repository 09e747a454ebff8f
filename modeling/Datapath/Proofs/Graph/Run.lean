import Datapath.Assessment
import Datapath.Proofs.Graph.Built

/-!
# Graphs in any run of steps

A graph is changed by declaring registers, adding nodes and validating; any step may fail, and the
run goes on. Meanwhile it keeps three tables, a counter for fresh ids, and whatever its validations
have found out, part by part. A validation that fails late has replaced some parts by then.

Whatever the run, none of this shows. A graph says what a mere list of the nodes and the registers
says (`Ledger`): the ids are unique and below the next fresh one, the consumers of a node and the
reads and writes of a register are those in the list, a step that fails changes no answer, and
validation answers what it would answer about a graph that is built anew.

## What is left behind

The parts of a layout that a failed validation leaves behind do not count, and are never read. The
next validation replaces them before anyone asks for them. So it is enough that a graph that is
marked as validated has the layout that would be computed again, and that the ranges of its
registers could be calculated.
-/

namespace Datapath

namespace Graph

variable {m : Machine} {g : Graph}

/-! ## Runs -/

/-- A step of a run. -/
inductive Step where
  | declare (register : Register)
  /-- Adds a node with the given id, or else with a fresh one, as for `Operation.const` and the
  other operations that are made from their parts. -/
  | add (operation : Operation) (id? : Option Int)
  /-- Validates, as every question about the layout does. -/
  | validate

/-- What a step makes of a graph, and whether it succeeds. -/
def perform (m : Machine) (g : Graph) : Step → Graph × Except Failure Unit
  | .declare r =>
    match g.declare r with
    | .ok g' => (g', .ok ())
    | .error cause => (g, .error (.malformed cause))
  | .add operation id? =>
    match g.add operation id? with
    | .ok (g', _) => (g', .ok ())
    | .error cause => (g, .error (.malformed cause))
  | .validate => g.validating m

/-- The graph after some steps from the empty one. A step that fails is followed by the next. -/
def run (m : Machine) (steps : List Step) : Graph :=
  steps.foldl (fun g step ↦ (g.perform m step).1) empty

/-- What a graph answers to the questions about its layout. Each of them validates the graph first,
and then reads a part that is kept. -/
def consult (m : Machine) (g : Graph) : Except Failure Layout :=
  (g.validating m).2.map fun _ ↦ (g.validating m).1.kept

theorem run_concat (steps : List Step) (step : Step) :
    run m (steps ++ [step]) = ((run m steps).perform m step).1 := by
  rw [run, List.foldl_append]
  rfl

/-! ## Ledgers -/

/-- The nodes and the registers that some steps leave, by the rules alone. -/
structure Ledger where
  nodes : List Node
  registers : List Register

namespace Ledger

/-- The first id above all others. -/
def fresh (l : Ledger) : Int := freshId l.nodes

/-- A register is entered unless its name is taken, and a node unless its id is. -/
def enter (l : Ledger) : Step → Ledger
  | .declare r =>
    if r.name ∈ l.registers.map (·.name) then l else { l with registers := l.registers ++ [r] }
  | .add operation id? =>
    let id := id?.getD l.fresh
    if id ∈ l.nodes.map (·.id) then l else { l with nodes := l.nodes ++ [⟨operation, id⟩] }
  | .validate => l

/-- The entries of a run. -/
def ofRun (steps : List Step) : Ledger := steps.foldl enter ⟨[], []⟩

/-- The steps that make the entries anew. -/
def steps (l : Ledger) : List Step :=
  l.registers.map .declare ++ l.nodes.map fun n ↦ .add n.toOperation (some n.id)

private theorem ofRun_concat (steps : List Step) (step : Step) :
    ofRun (steps ++ [step]) = (ofRun steps).enter step := by
  rw [ofRun, List.foldl_append]
  rfl

end Ledger

/-- Made anew, a graph is the one that is put together from its parts. -/
theorem run_steps {nodes : List Node} {registers : List Register}
    (hids : (nodes.map (·.id)).Nodup) (hnames : (registers.map (·.name)).Nodup) :
    run m (Ledger.steps ⟨nodes, registers⟩) = ofParts nodes registers := by
  -- registers are declared first, so the induction on the nodes is the outer one
  induction nodes using List.reverseRecOn with
  | nil =>
    rw [Ledger.steps, List.map_nil, List.append_nil]
    induction registers using List.reverseRecOn with
    | nil => rfl
    | append_singleton registers r ih =>
      have hrest := (List.nodup_append.mp (List.map_append ▸ hnames)).1
      rw [List.map_append, List.map_singleton, run_concat, ih hrest, perform,
        declare_ofParts hnames]
  | append_singleton nodes n ih =>
    have hrest := (List.nodup_append.mp (List.map_append ▸ hids)).1
    have hsteps : Ledger.steps ⟨nodes ++ [n], registers⟩ =
        Ledger.steps ⟨nodes, registers⟩ ++ [.add n.toOperation (some n.id)] := by
      rw [Ledger.steps, List.map_append, List.map_singleton, ← List.append_assoc, Ledger.steps]
    rw [hsteps, run_concat, ih hrest, perform, add_ofParts hids]

/-! ## What validation leaves -/

theorem sizeMishap?_congr {g' : Graph} (hnodes : g'.nodes = g.nodes)
    (hregisters : g'.registers = g.registers) (hindex : g'.index = g.index) :
    g'.sizeMishap? m = g.sizeMishap? m := by
  have hnode : g'.nodeFault = g.nodeFault := by
    have hcontains : g'.contains = g.contains := by
      funext id
      rw [contains, contains, hnodes]
    have hregister : g'.register? = g.register? := by
      funext name
      rw [register?, register?, hregisters]
    funext n
    rw [nodeFault, nodeFault, hcontains, hregister]
  have hwrites : g'.writes = g.writes := by
    funext register
    rw [writes, writes, hindex]
  have hin (registers : List Register) :
      g'.sizeMishapIn m registers = g.sizeMishapIn m registers := by
    induction registers with
    | nil => rfl
    | cons r registers ih =>
      rw [sizeMishapIn, sizeMishapIn, registerFault, registerFault, hwrites, ih]
  rw [sizeMishap?, sizeMishap?, hnodes, hnode, hregisters, hin]

/-- A graph that is marked as validated has registers whose ranges can be calculated. -/
def Sized (m : Machine) (g : Graph) : Prop := g.validated = true → g.sizeMishap? m = none

/-- Validation does nothing, or it checks the nodes and the registers on the machine and then does
what it does in exact arithmetic. -/
theorem validating_cases (m : Machine) (g : Graph) :
    (g.validated = true ∧ g.validating m = (g, .ok ())) ∨
    (g.validated = false ∧ ∃ mishap, g.sizeMishap? m = some mishap ∧
      g.validating m = (g, .error (.mishap mishap))) ∨
    (g.validated = false ∧ g.sizeMishap? m = none ∧
      g.validating m = (g.revalidate.1, g.revalidate.2.mapError .malformed)) := by
  rw [validating]
  cases hvalidated : g.validated with
  | true => exact Or.inl ⟨rfl, rfl⟩
  | false =>
    right
    cases g.sizeMishap? m with
    | some mishap => exact Or.inl ⟨rfl, mishap, rfl, rfl⟩
    | none => exact Or.inr ⟨rfl, rfl, rfl⟩

/-- What a graph answers about its layout is computed from its nodes and registers, whatever it
keeps. -/
theorem consult_eq (hg : g.Coherent) (hsized : g.Sized m) :
    g.consult m = (g.sizeMishap? m).elim (g.computeLayout.mapError .malformed)
      fun mishap ↦ .error (.mishap mishap) := by
  rw [consult]
  rcases g.validating_cases m with ⟨htrue, heq⟩ | ⟨-, mishap, hmishap, heq⟩ | ⟨hfalse, hnone, heq⟩
  · -- what a marked graph keeps is what would be computed
    have hlayout := hg.layout_known g.kept (layout?_eq_some.mpr ⟨htrue, rfl⟩)
    rw [heq, hsized htrue, hlayout]
    rfl
  · rw [heq, hmishap]
    rfl
  · rw [heq, hnone]
    rcases g.revalidate_cases with ⟨htrue, -⟩ | ⟨-, layout, hlayout, hcase⟩ |
      ⟨-, fault, order, components, hfault, hcase⟩
    · rw [hfalse] at htrue
      cases htrue
    · rw [hcase, hlayout]
      rfl
    · rw [hcase, hfault]
      rfl

/-- Two graphs give the same answer to every question. The first may keep other parts of a layout
than the second, but they do not count. -/
structure Alike (m : Machine) (g g' : Graph) : Prop where
  nodes_eq : g.nodes = g'.nodes
  registers_eq : g.registers = g'.registers
  nextId_eq : g.nextId = g'.nextId
  /-- The tables of consumers, reads and writes are the same. -/
  index_eq : g.index = g'.index
  /-- Both are marked as validated, or neither is. -/
  validated_eq : g.isValidated = g'.isValidated
  /-- The questions about the layout have the same answers. -/
  consult_eq : g.consult m = g'.consult m

theorem Alike.refl (m : Machine) (g : Graph) : Alike m g g := ⟨rfl, rfl, rfl, rfl, rfl, rfl⟩

/-- A validation that fails changes no answer, although it may leave parts of a layout behind. -/
theorem alike_of_validating_eq_error (hg : g.Coherent) {failure : Failure}
    (h : (g.validating m).2 = .error failure) : Alike m (g.validating m).1 g := by
  rcases g.validating_cases m with ⟨-, heq⟩ | ⟨-, mishap, -, heq⟩ | ⟨hfalse, -, heq⟩
  · rw [heq] at h
    cases h
  · rw [heq]
    exact .refl m g
  · rcases g.revalidate_cases with ⟨htrue, -⟩ | ⟨-, layout, -, hcase⟩ |
      ⟨-, fault, order, components, -, hcase⟩
    · rw [hfalse] at htrue
      cases htrue
    · rw [heq, hcase] at h
      cases h
    · -- the order and the components are new, but no answer of an unmarked graph rests on them
      have hcoherent := hg.revalidate
      have hunmarked {g' : Graph} (h' : g'.validated = g.validated) : g'.Sized m :=
        fun htrue ↦ absurd (hfalse.symm.trans (h'.symm.trans htrue)) Bool.false_ne_true
      have hsize : sizeMishap? m { g with order, components } = g.sizeMishap? m :=
        sizeMishap?_congr rfl rfl rfl
      have hlayout : computeLayout { g with order, components } = g.computeLayout :=
        computeLayout_congr rfl rfl rfl
      rw [heq]
      rw [hcase] at hcoherent ⊢
      refine ⟨rfl, rfl, rfl, rfl, rfl, ?_⟩
      rw [consult_eq hcoherent (hunmarked rfl), consult_eq hg (hunmarked rfl), ← hsize, ← hlayout]

/-- A step that fails changes no answer. -/
theorem alike_of_perform_eq_error (hg : g.Coherent) {step : Step} {failure : Failure}
    (h : (g.perform m step).2 = .error failure) : Alike m (g.perform m step).1 g := by
  cases step with
  | declare r =>
    rw [perform] at h ⊢
    cases hdeclare : g.declare r with
    | ok g' =>
      rw [hdeclare] at h
      cases h
    | error cause => exact .refl m g
  | add operation id? =>
    rw [perform] at h ⊢
    cases hadd : g.add operation id? with
    | ok added =>
      rw [hadd] at h
      cases h
    | error cause => exact .refl m g
  | validate => exact alike_of_validating_eq_error hg h

/-! ## One step -/

/-- A graph that some steps may have led to, with the entries that they leave. -/
structure Follows (m : Machine) (g : Graph) (l : Ledger) : Prop where
  built : g.Built
  nodes_eq : g.nodes = l.nodes
  registers_eq : g.registers = l.registers
  /-- Its mark stands for registers whose ranges can be calculated. -/
  sized : g.Sized m

namespace Follows

variable {l : Ledger}

theorem empty : Follows m Graph.empty ⟨[], []⟩ :=
  ⟨.empty, rfl, rfl, fun hvalidated ↦ absurd hvalidated Bool.false_ne_true⟩

theorem ids_eq (h : Follows m g l) : g.ids = l.nodes.map (·.id) := by
  rw [ids, h.nodes_eq]

theorem nextId_eq (h : Follows m g l) : g.nextId = l.fresh := by
  rw [h.built.nextId_eq, h.nodes_eq, Ledger.fresh]

private theorem perform_declare (h : Follows m g l) (r : Register) :
    Follows m (g.perform m (.declare r)).1 (l.enter (.declare r)) := by
  rw [perform, Ledger.enter, ← h.registers_eq]
  split_ifs with htaken
  · rw [declare_of_mem htaken]
    exact h
  · have hdeclare := declare_of_notMem htaken
    rw [hdeclare]
    refine ⟨.declare h.built hdeclare, h.nodes_eq, ?_, fun hvalidated ↦ by cases hvalidated⟩
    rw [h.registers_eq]

private theorem perform_add (h : Follows m g l) (o : Operation) (id? : Option Int) :
    Follows m (g.perform m (.add o id?)).1 (l.enter (.add o id?)) := by
  rw [perform, Ledger.enter, ← h.ids_eq, ← h.nextId_eq]
  split_ifs with htaken
  · rw [add_of_mem o id? htaken]
    exact h
  · have hadd := add_of_notMem o id? htaken
    rw [hadd]
    refine ⟨.add h.built hadd, ?_, h.registers_eq, fun hvalidated ↦ by cases hvalidated⟩
    rw [h.nodes_eq]

theorem validating (h : Follows m g l) : Follows m (g.validating m).1 l := by
  rcases g.validating_cases m with ⟨-, heq⟩ | ⟨-, mishap, -, heq⟩ | ⟨-, hnone, heq⟩
  · rw [heq]
    exact h
  · rw [heq]
    exact h
  · -- a graph is marked only after the ranges of its registers have been calculated
    obtain ⟨validated, order, components, loops, hcase⟩ := g.revalidate_eq
    have hbuilt := h.built.revalidate
    rw [heq]
    rw [hcase] at hbuilt ⊢
    refine ⟨hbuilt, h.nodes_eq, h.registers_eq, fun _ ↦ ?_⟩
    rw [← hnone]
    exact sizeMishap?_congr rfl rfl rfl

theorem perform (h : Follows m g l) (step : Step) :
    Follows m (g.perform m step).1 (l.enter step) := by
  cases step with
  | declare r => exact h.perform_declare r
  | add o id? => exact h.perform_add o id?
  | validate => exact h.validating

end Follows

theorem follows_run (m : Machine) (steps : List Step) :
    Follows m (run m steps) (.ofRun steps) := by
  induction steps using List.reverseRecOn with
  | nil => exact .empty
  | append_singleton steps step ih =>
    rw [run_concat, Ledger.ofRun_concat]
    exact ih.perform step

/-! ## What holds after every run -/

/-- A graph says what the entries of a ledger say. -/
structure Consistent (m : Machine) (g : Graph) (l : Ledger) : Prop where
  nodes_eq : g.nodes = l.nodes
  registers_eq : g.registers = l.registers
  ids_nodup : (l.nodes.map (·.id)).Nodup
  /-- All ids are below the next fresh one. -/
  ids_lt : ∀ n ∈ l.nodes, n.id < g.nextId
  /-- Without a given id, an operation is always added, under the fresh one. -/
  fresh : ∀ o : Operation, ∃ g', g.add o none = .ok (g', g.nextId)
  /-- With a given id, an operation is added exactly if that is not taken. -/
  given : ∀ (o : Operation) (id : Int),
    (∃ g', g.add o (some id) = .ok (g', id)) ↔ id ∉ l.nodes.map (·.id)
  /-- The consumers of a node are listed in order, once for each use. -/
  consumers_eq : ∀ id : Int,
    g.consumers id = l.nodes.flatMap fun n ↦ List.replicate (n.operands.count id) n.id
  /-- The reads of a register are those among the nodes. -/
  reads_eq : ∀ name : String, g.reads (.str name) =
    (l.nodes.filter fun n ↦ n.kind = .regRead && n.registerName? = some name).map (·.id)
  /-- The write of a register is the first among the nodes. -/
  write?_eq : ∀ name : String, g.write? (.str name) =
    ((l.nodes.filter fun n ↦ n.kind = .regWrite && n.registerName? = some name).map (·.id)).head?
  /-- A step that fails changes no answer. -/
  unchanged : ∀ (step : Step) (failure : Failure), (g.perform m step).2 = .error failure →
    Alike m (g.perform m step).1 g
  /-- A graph that is built anew has the same nodes. -/
  rebuilt_nodes : (run m l.steps).nodes = g.nodes
  /-- It has the same registers. -/
  rebuilt_registers : (run m l.steps).registers = g.registers
  /-- Its validation succeeds or fails in the same way, and finds the same layout. -/
  rebuilt_consult : (run m l.steps).consult m = g.consult m

namespace Follows

variable {l : Ledger}

private theorem exists_add_iff (h : Follows m g l) (o : Operation) (id : Int) :
    (∃ g', g.add o (some id) = .ok (g', id)) ↔ id ∉ l.nodes.map (·.id) := by
  rw [← h.ids_eq]
  constructor
  · rintro ⟨g', hadd⟩ htaken
    rw [add_of_mem o (some id) htaken] at hadd
    cases hadd
  · intro hfree
    exact ⟨_, add_of_notMem o (some id) hfree⟩

private theorem nextId_notMem (h : Follows m g l) : g.nextId ∉ g.ids := by
  intro hmem
  obtain ⟨n, hn, heq⟩ := List.mem_map.mp hmem
  exact absurd heq (Int.ne_of_lt (h.built.id_lt_nextId hn))

theorem consult_eq {g' : Graph} (h : Follows m g l) (h' : Follows m g' l) :
    g.consult m = g'.consult m := by
  have hnodes : g.nodes = g'.nodes := h.nodes_eq.trans h'.nodes_eq.symm
  have hregisters : g.registers = g'.registers := h.registers_eq.trans h'.registers_eq.symm
  have hindex : g.index = g'.index := by
    rw [h.built.coherent.index_eq, h'.built.coherent.index_eq, hnodes]
  rw [Graph.consult_eq h.built.coherent h.sized, Graph.consult_eq h'.built.coherent h'.sized,
    sizeMishap?_congr hnodes hregisters hindex, computeLayout_congr hnodes hregisters hindex]

theorem consistent (h : Follows m g l) : Consistent m g l := by
  have hcoherent := h.built.coherent
  have hids : (l.nodes.map (·.id)).Nodup := h.ids_eq ▸ hcoherent.ids_nodup
  have hnames : (l.registers.map (·.name)).Nodup := h.registers_eq ▸ hcoherent.names_nodup
  have hanew : run m l.steps = ofParts l.nodes l.registers := run_steps hids hnames
  have hrebuilt : Follows m (ofParts l.nodes l.registers) l :=
    ⟨built_of_nodup hids hnames, rfl, rfl, fun hvalidated ↦ by cases hvalidated⟩
  exact {
    nodes_eq := h.nodes_eq
    registers_eq := h.registers_eq
    ids_nodup := hids
    ids_lt := fun n hn ↦ h.built.id_lt_nextId (h.nodes_eq ▸ hn)
    fresh := fun o ↦ ⟨_, add_of_notMem o none h.nextId_notMem⟩
    given := h.exists_add_iff
    consumers_eq := h.nodes_eq ▸ hcoherent.consumers_eq
    reads_eq := h.nodes_eq ▸ hcoherent.reads_eq
    write?_eq := fun name ↦ congrArg List.head? (h.nodes_eq ▸ hcoherent.writes_eq name)
    unchanged := fun _ _ hfailure ↦ alike_of_perform_eq_error hcoherent hfailure
    rebuilt_nodes := by rw [hanew, nodes_ofParts, h.nodes_eq]
    rebuilt_registers := by rw [hanew, registers_ofParts, h.registers_eq]
    rebuilt_consult := by rw [hanew, hrebuilt.consult_eq h] }

end Follows

/-- **A graph is consistent after every run.** Whatever steps are taken, in whatever order and
whichever of them fail, the graph says what the entries of the run say. -/
theorem run_consistent (m : Machine) (steps : List Step) :
    Consistent m (run m steps) (.ofRun steps) :=
  (follows_run m steps).consistent

/-- A write of a node that comes later, ids that are given, one of them twice, validation before the
graph is complete and when it is legal, and a second write that makes it a tangle. -/
def approach : List Step :=
  [.declare ⟨"b", 0, some 8, false⟩, .declare ⟨"a", 0, none, false⟩,
    .add (.regWrite (.str "b") 9 none) none, .add (.regRead (.str "b") none) (some (-3)),
    .add (.const 1 none) (some (-3)), .validate, .add (.regRead (.str "a") none) (some 5),
    .add (.binary .add (-3) 5 none) (some 9), .validate, .declare ⟨"a", 1, none, true⟩,
    .add (.regWrite (.str "a") 9 none) none]

/-- The graph that this leads to, with the layout that it had before the second write. -/
def tangling : Graph :=
  { ofParts [⟨.regWrite (.str "b") 9 none, 0⟩, ⟨.regRead (.str "b") none, -3⟩,
      ⟨.regRead (.str "a") none, 5⟩, ⟨.binary .add (-3) 5 none, 9⟩,
      ⟨.regWrite (.str "a") 9 none, 10⟩] [⟨"b", 0, some 8, false⟩, ⟨"a", 0, none, false⟩] with
    order := [-3, 5, 9, 0]
    components := [[5], [-3, 9, 0]]
    loops := [⟨"b", [-3, 9, 0], [-3], 0⟩] }

private theorem run_approach : run .roomy approach = tangling := by with_unfolding_all rfl

/-- A validation of the tangle leaves its order and its components behind. -/
theorem validating_tangling : tangling.validating .roomy =
    ({ tangling with order := [-3, 5, 9, 0, 10], components := [[10, 5, -3, 9, 0]] },
      .error (.malformed (.tangled ["a", "b"]
        (tangling.tangle [10, 5, -3, 9, 0] ("a", 10) ("b", 0))))) := by
  have hsize : tangling.sizeMishap? .roomy = none := by decide +kernel
  have hparts : tangling.partFault? = none := rfl
  have horder : tangling.operandOrder = .ok [-3, 5, 9, 0, 10] := rfl
  have hcomponents : dependencyComponents { tangling with order := [-3, 5, 9, 0, 10] } =
      [[10, 5, -3, 9, 0]] := by decide +kernel
  have hclosing : tangling.closingRegisters [10, 5, -3, 9, 0] = [("a", 10), ("b", 0)] := by
    rw [closingRegisters]
    exact List.mergeSort_of_pairwise (by decide +kernel)
  have hloop : tangling.feedbackLoop [-3, 5, 9, 0, 10] [10, 5, -3, 9, 0] =
      .error (.tangled ["a", "b"] (tangling.tangle [10, 5, -3, 9, 0] ("a", 10) ("b", 0))) := by
    rw [feedbackLoop, if_neg (by decide), hclosing]
    rfl
  have hloops : feedbackLoops { tangling with
      order := [-3, 5, 9, 0, 10], components := [[10, 5, -3, 9, 0]] }
      [-3, 5, 9, 0, 10] [[10, 5, -3, 9, 0]] = .error (.tangled ["a", "b"]
        (tangling.tangle [10, 5, -3, 9, 0] ("a", 10) ("b", 0))) :=
    Outcome.map_eq_error.mpr (Outcome.bind_eq_error.mpr (Or.inl hloop))
  rw [validating, if_neg (by decide), hsize]
  simp only [revalidate, hparts, horder, hcomponents, hloops]
  rfl

/-- The last validation fails. It leaves the order and the component of the tangle behind, beside
the loop that the one before it found in a graph that is no more. -/
theorem run_approach_consistent :
    (run .roomy (approach ++ [.validate])).isValidated = false ∧
    (run .roomy (approach ++ [.validate])).kept =
      ⟨[-3, 5, 9, 0, 10], [[10, 5, -3, 9, 0]], [⟨"b", [-3, 9, 0], [-3], 0⟩]⟩ ∧
    Consistent .roomy (run .roomy (approach ++ [.validate]))
      (.ofRun (approach ++ [.validate])) := by
  have hrun : run .roomy (approach ++ [.validate]) = (tangling.validating .roomy).1 := by
    rw [run_concat, run_approach, perform]
  refine ⟨?_, ?_, run_consistent .roomy _⟩
  · rw [hrun, validating_tangling]
    rfl
  · rw [hrun, validating_tangling]
    rfl

end Graph

end Datapath
