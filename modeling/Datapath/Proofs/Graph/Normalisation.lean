import Datapath.Assessment
import Datapath.Proofs.Graph.Decoding

/-!
# Normal documents

A document may be loose: keys are missing, numbers are written as texts, parts are null. Decoding it
and encoding the graph again gives a *normal* document, which decodes to the same graph except that
a register without a width is no longer signed. This module shows that no analysis can tell.

## What an analysis asks about a register

It asks for the name, the initial value and the range, and there is no range without a width. So
each function that reads the registers is taken through `Graph.documented` once, from the views up
to the assessment; whatever reads only the nodes is the same by definition.
-/

namespace Datapath

/-! ## Registers -/

namespace Register

variable (r : Register)

@[simp] theorem range_documented : r.documented.range = r.range := by
  rw [range, range, documented]
  cases r.width <;> simp

@[simp] theorem mishap?_documented (m : Machine) : r.documented.mishap? m = r.mishap? m := by
  rw [mishap?, mishap?, documented]
  cases r.width <;> simp

end Register

namespace Graph

/-- A graph with its registers as a document describes them. -/
def documented (g : Graph) : Graph := { g with registers := g.registers.map Register.documented }

variable (g : Graph)

/-! ## Validation -/

theorem register?_documented (name : String) :
    g.documented.register? name = (g.register? name).map Register.documented := by
  rw [register?, documented, List.find?_map]
  rfl

theorem nodeFault_documented : g.documented.nodeFault = g.nodeFault := by
  funext n
  have hnone : (n.registerName?.bind g.documented.register?).isNone =
      (n.registerName?.bind g.register?).isNone := by
    cases n.registerName? with
    | none => rfl
    | some name => simp only [Option.bind_some, register?_documented, Option.isNone_map]
  simp only [nodeFault, hnone]
  rfl

theorem registerFault_documented (r : Register) :
    g.documented.registerFault r.documented = g.registerFault r := by
  cases hwidth : r.width with
  | none => simp only [registerFault, Register.documented, hwidth]; rfl
  | some width =>
    simp only [registerFault, Register.documented, hwidth, Option.isSome_some, Bool.and_true]
    rfl

private theorem partFault?_documented : g.documented.partFault? = g.partFault? := by
  have hregisters : g.documented.registers.findSome? g.documented.registerFault =
      g.registers.findSome? g.registerFault := by
    rw [documented, List.findSome?_map]
    exact congrArg (g.registers.findSome? ·) (funext g.registerFault_documented)
  rw [partFault?, nodeFault_documented, hregisters]
  rfl

/-- Validation finds the same parts of a layout, and keeps the same ones when it fails. -/
theorem revalidate_documented :
    g.documented.revalidate = (g.revalidate.1.documented, g.revalidate.2) := by
  by_cases hvalidated : g.validated = true
  · rw [revalidate, revalidate, if_pos hvalidated]
    exact if_pos hvalidated
  · have horder : g.documented.operandOrder = g.operandOrder := rfl
    rw [revalidate, revalidate, if_neg hvalidated, partFault?_documented, horder]
    refine (if_neg hvalidated).trans ?_
    cases g.partFault? with
    | some fault => rfl
    | none =>
      cases g.operandOrder with
      | error fault => rfl
      | ok order =>
        have hcomponents : dependencyComponents { g with order } = g.dependencyComponents := rfl
        have hcomponents' : dependencyComponents { g.documented with order } =
          g.dependencyComponents := rfl
        have hloops : feedbackLoops
            { g.documented with order, components := g.dependencyComponents } order
            g.dependencyComponents =
          feedbackLoops { g with order, components := g.dependencyComponents } order
            g.dependencyComponents := rfl
        dsimp only
        rw [hcomponents, hcomponents', hloops]
        cases feedbackLoops { g with order, components := g.dependencyComponents } order
          g.dependencyComponents <;> rfl

theorem validate_documented : g.documented.validate = g.validate.map documented := by
  rw [validate, validate, revalidate_documented]
  rcases g.revalidate with ⟨g', fault | _⟩ <;> rfl

theorem layout_documented : g.documented.layout = g.layout := by
  rw [layout, layout, validate_documented]
  cases g.validate <;> rfl

variable (m : Machine)

private theorem sizeMishapIn_documented (registers : List Register) :
    g.documented.sizeMishapIn m (registers.map Register.documented) =
      g.sizeMishapIn m registers := by
  induction registers with
  | nil => rfl
  | cons r rest ih =>
    rw [List.map_cons, sizeMishapIn, sizeMishapIn, Register.mishap?_documented,
      registerFault_documented, ih]
    rfl

private theorem sizeMishap?_documented : g.documented.sizeMishap? m = g.sizeMishap? m := by
  rw [sizeMishap?, sizeMishap?, nodeFault_documented]
  exact congrArg _ (g.sizeMishapIn_documented m g.registers)

theorem checked_documented : g.documented.checked m = (g.checked m).map documented := by
  rw [checked, checked, sizeMishap?_documented, validate_documented]
  cases g.sizeMishap? m with
  | some mishap => rfl
  | none => cases g.validate <;> rfl

end Graph

/-! ## Inference -/

namespace Inference

variable (g : Graph)

theorem declared_documented (name : String) :
    declared g.documented name = (declared g name).map Register.documented := by
  rw [declared, declared, Graph.register?_documented]
  cases g.register? name <;> rfl

private theorem registerValues_documented : registerValues g.documented = registerValues g := by
  funext env values name
  rw [registerValues, registerValues, declared_documented]
  cases values.lookup name with
  | some interval => rfl
  | none => cases declared g name <;> rfl

private theorem written_documented : written g.documented = written g := by
  funext name a
  rw [written, written, declared_documented, Outcome.map_bind]
  simp only [Register.range_documented]

private theorem transfer_documented : transfer g.documented = transfer g := by
  funext t env values n
  simp only [transfer, written_documented, registerValues_documented]

private theorem transferOn_documented (m : Machine) (t : Tuning) :
    transferOn m g.documented t = transferOn m g t := by
  funext env values n
  simp only [transferOn, transfer_documented]

private theorem thresholds_documented (r : Register) : thresholds r.documented = thresholds r := by
  rw [thresholds, Register.range_documented, ← thresholds]

-- Whatever evaluates the nodes, a loop is solved in the same way.
private theorem solveLoopBy_documented (evaluate : Evaluator) :
    solveLoopBy evaluate g.documented = solveLoopBy evaluate g := by
  have hsettle : settleBy evaluate g.documented = settleBy evaluate g := by
    funext t s loop thresholds fuel
    induction fuel with
    | zero => rfl
    | succ fuel ih =>
      funext iteration seed history
      rw [settleBy, settleBy, ih]
      rfl
  funext t s loop
  rw [solveLoopBy, solveLoopBy, declared_documented, hsettle]
  cases declared g loop.register with
  | error cause => rfl
  | ok r => simp only [Except.map, Except.mapError, Outcome.ok_bind, thresholds_documented]; rfl

private theorem completeRegisters_documented :
    completeRegisters g.documented = completeRegisters g := by
  funext s
  rw [completeRegisters, Graph.documented, List.foldlM_map]
  rfl

end Inference

namespace Graph

variable (g : Graph)

private theorem inferOn_documented (m : Machine) (t : Tuning) :
    g.documented.inferOn m t = g.inferOn m t := by
  have hsolve : Inference.solveComponentBy (Inference.transferOn m g t) g.documented =
      Inference.solveComponentBy (Inference.transferOn m g t) g := by
    funext t loops s component
    simp only [Inference.solveComponentBy, Inference.solveLoopBy_documented]
    rfl
  rw [inferOn, inferOn, Inference.transferOn_documented, Inference.inferBy, Inference.inferBy,
    layout_documented, Inference.completeRegisters_documented, hsolve]
  rfl

theorem inferred_documented (m : Machine) : g.documented.inferred m = g.inferred m := by
  funext t
  rw [inferred, inferred, checked_documented, inferOn_documented]
  cases g.checked m <;> rfl

/-! ## Depths and assessments -/

theorem measureDepth_documented : g.documented.measureDepth = g.measureDepth := by
  funext w threshold severity
  rw [measureDepth, measureDepth, layout_documented]
  rfl

private theorem analyses_documented (m : Machine) : g.documented.analyses m = g.analyses m := by
  have hknown : (g.documented.checked m).toOption.getD g.documented =
      ((g.checked m).toOption.getD g).documented := by
    rw [checked_documented]
    cases g.checked m <;> rfl
  rw [analyses, analyses, hknown, checked_documented, inferred_documented,
    measureDepth_documented]
  cases g.checked m <;> rfl

private theorem assess_documented (m : Machine) : g.documented.assess m = g.assess m := by
  funext c
  rw [assess, assess, analyses_documented]

/-! ## Documents -/

private theorem encodeRegister_documented (r : Register) :
    encodeRegister r.documented = encodeRegister r := by
  cases hwidth : r.width <;>
    simp [encodeRegister, Register.documented, registerDocument, hwidth]

private theorem toDocument_documented : g.documented.toDocument = g.toDocument := by
  rw [toDocument, toDocument, documented, List.map_map,
    show encodeRegister ∘ Register.documented = encodeRegister from
      funext encodeRegister_documented]

variable {g} {document : Json}

/-- A decoded graph comes back from its document, except for what the document does not say. -/
theorem Decoded.ofDocument_eq (h : g.Decoded) :
    ofDocument g.toDocument = .ok g.documented := by
  have hg := h.built.coherent
  have hregisters := decodeEach_registers hg
  have hnodes := decodeEach_expressible hg h.nodes (g.registers.map Register.documented)
  have hparts : g.documented = .ofParts g.nodes (g.registers.map Register.documented) := by
    rw [documented, ← h.forget_eq, h.built.forget_eq]
    rfl
  rw [hparts]
  exact Outcome.bind_eq_ok.mpr ⟨_, hregisters, hnodes⟩

private theorem decoded_of_ofDocument (h : ofDocument document = .ok g) : g.Decoded := by
  rcases ofDocument_cases document with ⟨g', hg', hdecoded⟩ | ⟨failure, hfailure, -⟩
  · rw [h] at hg'
    cases hg'
    exact hdecoded
  · rw [h] at hfailure
    cases hfailure

/-- **Normalising a document changes no analysis.** The document of a decoded graph decodes again,
encoding what comes out gives it back, and for all settings both graphs have the same layout, the
same intervals, the same depths and the same assessment, or fail in the same way. -/
theorem ofDocument_normal (h : ofDocument document = .ok g) (m : Machine) :
    ∃ g', ofDocument g.toDocument = .ok g' ∧ g'.toDocument = g.toDocument ∧
      (g'.checked m).map (·.layout?) = (g.checked m).map (·.layout?) ∧
      (∀ t, g'.inferred m t = g.inferred m t) ∧
      (∀ w threshold severity,
        g'.measureDepth w threshold severity = g.measureDepth w threshold severity) ∧
      ∀ c, g'.assess m c = g.assess m c := by
  refine ⟨g.documented, (decoded_of_ofDocument h).ofDocument_eq, g.toDocument_documented,
    ?_, fun t ↦ ?_, fun w threshold severity ↦ ?_, fun c ↦ ?_⟩
  · rw [checked_documented]
    cases g.checked m <;> rfl
  · rw [inferred_documented]
  · rw [measureDepth_documented]
  · rw [assess_documented]

/-- Numbers as texts and truth values, a null instead of a part, and a signed register without a
width. -/
def loose : Json := .obj [
  ("registers", .arr [.obj [("name", .int 7), ("init", .str " 3 "), ("width", .null),
    ("signed", .bool true)]]),
  ("nodes", .arr [
    .obj [("id", .str "5"), ("kind", .str "const"), ("value", .bool true), ("name", .null)],
    .obj [("id", .int 2), ("kind", .str "reg_write"), ("register", .str "7"),
      ("operands", .arr [.str "5"]), ("span", .obj [("line", .str "12")])]])]

/-- The graph of that document. -/
def tightened : Graph :=
  .ofParts [⟨.const 1 none, 5⟩, ⟨.regWrite (.str "7") 5 (some ⟨"", 12, 0⟩), 2⟩]
    [⟨"7", 3, none, true⟩]

theorem ofDocument_loose : ofDocument loose = .ok tightened ∧
    ∃ g', ofDocument tightened.toDocument = .ok g' ∧ g'.toDocument = tightened.toDocument ∧
      ∀ c, g'.assess .roomy c = tightened.assess .roomy c := by
  have hloose : ofDocument loose = .ok tightened := rfl
  obtain ⟨g', hg', hdocument, -, -, -, hassess⟩ := ofDocument_normal hloose .roomy
  exact ⟨hloose, g', hg', hdocument, hassess⟩

end Graph

end Datapath
