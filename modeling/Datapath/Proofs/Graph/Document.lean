import Datapath.Graph.Document
import Datapath.Proofs.Graph.Built

/-!
# Decoding undoes encoding

A part that is missing leaves no entry in the document, and decoding takes a missing entry for a
missing part. So a node comes back as it was, whatever parts it has. The graph is built anew entry
by entry, and no step is refused, because names and ids were not repeated in the first place.

## What is lost

The signedness of a register is written only together with a width, so a register without a width
comes back as unsigned. What validation found out is not written either.
-/

namespace Datapath

/-- The register and the display name of a node are texts, if they are there. -/
structure Node.Textual (n : Node) : Prop where
  register : ∀ value, n.register = some value → ∃ s, value = .str s
  name : ∀ value, n.name = some value → ∃ s, value = .str s

/-- A document can say what a node is: null would stand for a part that is missing, and a register
that is read or written has to be looked up by. -/
structure Node.Expressible (n : Node) : Prop where
  register : n.register ≠ some .null
  name : n.name ≠ some .null
  /-- The register as something to look up by. -/
  isKey : Graph.registerIsKey n.toOperation = true

private theorem Node.Textual.expressible {n : Node} (h : n.Textual) : n.Expressible where
  register := by
    intro hnull
    obtain ⟨s, hs⟩ := h.register _ hnull
    cases hs
  name := by
    intro hnull
    obtain ⟨s, hs⟩ := h.name _ hnull
    cases hs
  isKey := by
    rw [Graph.registerIsKey, Bool.or_eq_true]
    right
    cases hregister : n.register with
    | none => rfl
    | some value =>
      obtain ⟨s, rfl⟩ := h.register value hregister
      rfl

/-- A register as a document describes it. -/
def Register.documented (r : Register) : Register := { r with signed := r.signed && r.width.isSome }

theorem Kind.ofName?_name (k : Kind) : Kind.ofName? k.name = some k := by
  cases k <;> rfl

namespace Graph

variable {g : Graph} {n : Node} {r : Register}

/-! ## Entries of a document -/

private theorem lookup_entry (key k : String) (value : Json) (rest : List (String × Json)) :
    List.lookup key ((k, value) :: rest) = if key = k then some value else rest.lookup key := by
  by_cases h : key = k
  · rw [if_pos h, h, List.lookup_cons_self]
  · rw [if_neg h, List.lookup_cons, beq_eq_false_iff_ne.mpr h]

private theorem lookup_part {α : Type} (key k : String) (part : Option α) (f : α → Json) :
    List.lookup key (part.elim [] fun value ↦ [(k, f value)]) =
      if key = k then part.map f else none := by
  cases part with
  | none => simp
  | some value => simp [lookup_entry]

theorem get?_nodeDocument (id : Json) (kind : Kind) (operands : List Json)
    (value register : Option Json) (bounds : Option (List Json)) (name : Option Json)
    (place : Option Place) (key : String) :
    (nodeDocument id kind operands value register bounds name place).get? key =
      match key with
      | "id" => some id
      | "kind" => some (.str kind.name)
      | "operands" => if operands.isEmpty then none else some (.arr operands)
      | "value" => value
      | "register" => register
      | "bounds" => bounds.map .arr
      | "name" => name
      | "span" => place.map encodePlace
      | _ => none := by
  cases operands <;> split <;>
    simp_all [nodeDocument, Json.get?, List.lookup_append, lookup_part, lookup_entry]

theorem get?_registerDocument (name init : Json) (width : Option Json) (signed : Json)
    (key : String) : (registerDocument name init width signed).get? key =
      match key with
      | "name" => some name
      | "init" => some init
      | "width" => width
      | "signed" => width.map fun _ ↦ signed
      | _ => none := by
  cases width <;> split <;>
    simp_all [registerDocument, Json.get?, lookup_entry]

/-! ## Registers -/

theorem decodeRegister_encodeRegister (g : Graph) (index : Nat) (r : Register) :
    decodeRegister g index (encodeRegister r) = (g.declare r.documented).mapError .malformed := by
  have hwidth : optionalInt (encodeRegister r) "width" = .ok r.width := by
    rw [optionalInt, optional, encodeRegister, get?_registerDocument]
    cases r.width <;> rfl
  have hsigned : (((encodeRegister r).get? "signed").getD (.bool false)).isTrue =
      (r.signed && r.width.isSome) := by
    rw [encodeRegister, get?_registerDocument]
    cases r.width <;> simp [Json.isTrue]
  simp only [decodeRegister, hwidth, hsigned, required]
  simp only [encodeRegister, get?_registerDocument]
  rfl

/-! ## Nodes -/

private theorem locate_ok {α : Type} (place : String) (value : α) :
    locate place (.ok value) = .ok value := rfl

theorem optional_eq {key : String} {entry : Json} {value : Option Json}
    (hget : entry.get? key = value) (hnull : value ≠ some .null) : optional entry key = value := by
  rw [optional, hget]
  split
  case h_1 => exact absurd rfl hnull
  case h_2 => rfl

theorem decodeOperation_encodeNode (place : String) (h : n.Expressible) :
    decodeOperation place n.kind (encodeNode n) = .ok (n.toOperation, n.id) := by
  have hget (key : String) : (encodeNode n).get? key = _ := get?_nodeDocument _ _ _ _ _ _ _ _ key
  have hoperands : (((encodeNode n).get? "operands").getD (.arr [])).toItems =
      .ok (n.operands.map .int) := by
    rw [hget]
    cases n.operands <;> rfl
  have hints : (n.operands.map Json.int).mapM Json.toInt = .ok n.operands := by
    rw [Outcome.mapM_eq_ok, List.forall₂_map_left_iff]
    exact List.forall₂_same.mpr fun _ _ ↦ rfl
  have hvalue : optionalInt (encodeNode n) "value" = .ok n.value := by
    rw [optionalInt, optional, hget]
    cases n.value <;> rfl
  have hregister : optional (encodeNode n) "register" = n.register :=
    optional_eq (hget "register") h.register
  have hname : optional (encodeNode n) "name" = n.name := optional_eq (hget "name") h.name
  have hid : required (encodeNode n) "id" place = .ok (.int n.id) := by
    rw [required, hget]
    rfl
  have hbounds : optional (encodeNode n) "bounds" =
      n.bounds.map fun bounds ↦ .arr [.int bounds.1, .int bounds.2] := by
    rw [optional, hget]
    cases n.bounds <;> rfl
  have hspan : (encodeNode n).get? "span" = n.span.map fun span ↦ encodePlace span.place := by
    rw [hget]
    cases n.span <;> rfl
  change _ = Except.ok
    (Operation.mk n.kind n.operands n.value n.register n.bounds n.name n.span, n.id)
  simp only [decodeOperation, hid, hoperands, hints, hvalue, hregister, hname, hbounds, hspan,
    locate_ok, Outcome.ok_bind, Json.toInt]
  cases n.bounds with
  | none => cases n.span <;> rfl
  | some bounds => cases n.span <;> rfl

theorem decodeNode_encodeNode (g : Graph) (index : Nat) (h : n.Expressible) :
    decodeNode g index (encodeNode n) =
      ((g.add n.toOperation (some n.id)).map (·.1)).mapError .malformed := by
  have hkind (place : String) : required (encodeNode n) "kind" place = .ok (.str n.kind.name) := by
    rw [required, encodeNode, get?_nodeDocument]
    rfl
  have hdecode (place : String) : decodeKind place (.str n.kind.name) = .ok n.kind := by
    rw [decodeKind, Kind.ofName?_name]
  simp only [decodeNode, hkind, hdecode, decodeOperation_encodeNode _ h, Outcome.ok_bind,
    h.isKey]
  cases g.add n.toOperation (some n.id) <;> rfl

/-! ## Lists of entries -/

/-- Entries are decoded one after another: each takes the graph of those before it to the graph with
it. -/
theorem decodeEach_map {α : Type} {step : Graph → Nat → Json → Except DecodeFailure Graph}
    (encode : α → Json) (graph : List α → Graph) (items : List α)
    (hstep : ∀ done item rest, items = done ++ item :: rest →
      ∀ index, step (graph done) index (encode item) = .ok (graph (done ++ [item]))) :
    decodeEach step (graph []) (.arr (items.map encode)) = .ok (graph items) := by
  have hrun : ∀ (rest done : List α) (index : Nat), items = done ++ rest →
      ∃ last, (rest.map encode).foldlM (fun (state : Graph × Nat) entry ↦
        do return (← step state.1 state.2 entry, state.2 + 1)) (graph done, index) =
        .ok (graph items, last) := by
    intro rest
    induction rest with
    | nil =>
      intro done index heq
      exact ⟨index, by rw [heq, List.append_nil]; rfl⟩
    | cons item rest ih =>
      intro done index heq
      obtain ⟨last, hlast⟩ := ih (done ++ [item]) (index + 1) (by rw [heq]; simp)
      refine ⟨last, ?_⟩
      rw [List.map_cons, List.foldlM_cons, hstep done item rest heq]
      exact hlast
  obtain ⟨last, hlast⟩ := hrun items [] 0 rfl
  rw [decodeEach, Json.toItems, Except.mapError, Outcome.ok_bind]
  exact Outcome.bind_eq_ok.mpr ⟨_, hlast, rfl⟩

theorem decodeEach_registers (hg : g.Coherent) :
    decodeEach decodeRegister empty (.arr (g.registers.map encodeRegister)) =
      .ok (.ofParts [] (g.registers.map Register.documented)) := by
  refine decodeEach_map encodeRegister (fun done ↦ .ofParts [] (done.map Register.documented))
    g.registers ?_
  intro done r rest heq index
  rw [decodeRegister_encodeRegister, List.map_append]
  have hnodup := hg.names_nodup
  rw [heq, List.append_cons, List.map_append, List.nodup_append] at hnodup
  have hnew : (done.map Register.documented ++ [r.documented]).map (·.name) =
      (done ++ [r]).map (·.name) := by
    rw [List.map_append, List.map_map, List.map_append]
    rfl
  rw [declare_ofParts (hnew ▸ hnodup.1)]
  rfl

theorem decodeEach_expressible (hg : g.Coherent) (h : ∀ n ∈ g.nodes, n.Expressible)
    (registers : List Register) :
    decodeEach decodeNode (.ofParts [] registers) (.arr (g.nodes.map encodeNode)) =
      .ok (.ofParts g.nodes registers) := by
  refine decodeEach_map encodeNode (fun done ↦ .ofParts done registers) g.nodes ?_
  intro done n rest heq index
  have hnodup := hg.ids_nodup
  rw [ids, heq, List.append_cons, List.map_append, List.nodup_append] at hnodup
  rw [decodeNode_encodeNode _ _ (h n (by simp [heq])), add_ofParts hnodup.1]
  rfl

private theorem decodeEach_nodes (hg : g.Coherent) (h : ∀ n ∈ g.nodes, n.Textual)
    (registers : List Register) :
    decodeEach decodeNode (.ofParts [] registers) (.arr (g.nodes.map encodeNode)) =
      .ok (.ofParts g.nodes registers) :=
  decodeEach_expressible hg (fun n hn ↦ (h n hn).expressible) registers

/-- **Decoding undoes encoding**, up to the signedness of registers without a width and what
validation found out. -/
theorem ofDocument_toDocument (h : g.Built) (htext : ∀ n ∈ g.nodes, n.Textual) :
    ofDocument g.toDocument =
      .ok { g.forget with registers := g.registers.map Register.documented } := by
  have hg := h.coherent
  have hregisters := decodeEach_registers hg
  have hnodes := decodeEach_nodes hg htext (g.registers.map Register.documented)
  rw [h.forget_eq]
  exact Outcome.bind_eq_ok.mpr ⟨_, hregisters, hnodes⟩

/-- A signed register, a bounded input with its place, and an output without a name to speak of. -/
def annotated : Graph :=
  .ofParts [⟨.input (some (.str "x")) (some (-4)) (some 3) (some ⟨"top.v", 3, 0⟩), 7⟩,
    ⟨.output 7 (some (.str "")) none, 2⟩]
    [⟨"r", -1, some 8, true⟩]

theorem ofDocument_annotated : annotated.Built ∧ (∀ n ∈ annotated.nodes, n.Textual) ∧
    ofDocument annotated.toDocument = .ok annotated := by
  have hbuilt : annotated.Built := built_of_nodup (by decide) (by decide)
  have htext : ∀ n ∈ annotated.nodes, n.Textual := by
    rw [annotated]
    rintro n (_ | ⟨_, _ | ⟨_, ⟨⟩⟩⟩)
    · exact ⟨by rintro _ ⟨⟩, by rintro _ ⟨⟩; exact ⟨_, rfl⟩⟩
    · exact ⟨by rintro _ ⟨⟩, by rintro _ ⟨⟩; exact ⟨_, rfl⟩⟩
  exact ⟨hbuilt, htext, ofDocument_toDocument hbuilt htext⟩

/-- A signed register without a width. -/
def unsized : Graph := .ofParts [] [⟨"r", 0, none, true⟩]

/-- The register without a width comes back as unsigned. -/
theorem ofDocument_unsized : unsized.Built ∧
    ∃ g, ofDocument unsized.toDocument = .ok g ∧ g.registers ≠ unsized.registers :=
  ⟨built_of_nodup (by decide) (by decide), _, rfl, by decide⟩

end Graph

end Datapath
