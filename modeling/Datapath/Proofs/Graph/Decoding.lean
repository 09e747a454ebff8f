import Datapath.Proofs.Graph.Document

/-!
# Decoding fails only for a reason

Whatever value is given as a document, decoding ends with a graph or with a failure that can be
pointed at in the document: the document is refused because of what stands in an entry, or an entry
repeats a name or an id, or a mishap escapes.

## What escapes

A mishap in an entry is reported with the place of the entry, two excepted: an infinity where an
integer belongs, and a range that is given as an object. They escape, and so does a list of entries
that is no list at all.
-/

namespace Datapath.Graph

variable {document entry raw : Json} {list : String} {before : List Json} {g g' : Graph}

/-! ## What stands in a document -/

/-- A document has an entry in one of its lists, after some others. -/
def Lists (document : Json) (list : String) (before : List Json) (entry : Json) : Prop :=
  ∃ raw after, document.get? list = some raw ∧ raw.toItems = .ok (before ++ entry :: after)

/-- The place of the entry that comes after some others. -/
def placeAfter (list : String) (before : List Json) : String := s!"{list}[{before.length}]"

/-- The name that an entry gives to a register. -/
def entryName (entry : Json) : Option String := (entry.get? "name").map Json.plain

/-- The id that an entry gives to a node. -/
def entryId (entry : Json) : Option Int := (entry.get? "id").bind (·.toInt.toOption)

/-- A value stands in an entry where an integer belongs. -/
inductive AsInteger : (list : String) → (entry value : Json) → Prop
  /-- In a field of its own. -/
  | field {list key : String} {entry value : Json} :
    (list, key) ∈ [("registers", "init"), ("registers", "width"), ("nodes", "id"),
      ("nodes", "value")] → entry.get? key = some value → AsInteger list entry value
  /-- Among the operands. -/
  | operand {entry raw value : Json} {items : List Json} :
    entry.get? "operands" = some raw → raw.toItems = .ok items → value ∈ items →
    AsInteger "nodes" entry value
  /-- As an end of the declared range. -/
  | bound {entry raw value : Json} {index : Nat} :
    entry.get? "bounds" = some raw → index < 2 → raw.item index = .ok value →
    AsInteger "nodes" entry value
  /-- In the place in the source text. -/
  | position {entry raw value : Json} {key : String} :
    entry.get? "span" = some raw → key ∈ ["line", "column"] → raw.get? key = some value →
    AsInteger "nodes" entry value

/-- What goes wrong when the parts of an entry are read. -/
inductive Misread : (list : String) → (entry : Json) → Mishap → Prop
  /-- A value has no integer reading. -/
  | integer {list : String} {entry value : Json} {cause : Mishap} :
    AsInteger list entry value → value.toInt = .error cause → Misread list entry cause
  /-- The operands are no list. -/
  | operands {entry raw : Json} {cause : Mishap} :
    entry.get? "operands" = some raw → raw.toItems = .error cause → Misread "nodes" entry cause
  /-- The declared range lacks an end, the ends before it being there. -/
  | bounds {entry raw : Json} {index : Nat} {cause : Mishap} :
    entry.get? "bounds" = some raw → index < 2 → (∀ i < index, (raw.item i).isOk = true) →
    raw.item index = .error cause → Misread "nodes" entry cause
  /-- The register cannot be looked up by. -/
  | register {entry register : Json} :
    entry.get? "register" = some register → register.isKey = false →
    Misread "nodes" entry (.unhashable register.kindName)

/-! ## Why decoding fails -/

/-- Why a document is refused. -/
inductive Refused (document : Json) : BadDocument → Prop
  /-- It is no object. -/
  | notAnObject : isObject document = false → Refused document .notAnObject
  /-- An entry is no object. -/
  | notAnEntry {list : String} {before : List Json} {entry : Json} :
    Lists document list before entry → isObject entry = false →
    Refused document (.notAnEntry (placeAfter list before))
  /-- An entry lacks a key. -/
  | missingKey {list key : String} {before : List Json} {entry : Json} :
    Lists document list before entry →
    (list, key) ∈ [("registers", "name"), ("nodes", "kind"), ("nodes", "id")] →
    entry.get? key = none → Refused document (.missingKey (placeAfter list before) key)
  | unknownKind {before : List Json} {entry raw : Json} :
    Lists document "nodes" before entry → entry.get? "kind" = some raw →
    (∀ kind : Kind, raw ≠ .str kind.name) →
    Refused document (.unknownKind (placeAfter "nodes" before) raw)
  /-- A span is no object. -/
  | badSpan {before : List Json} {entry raw : Json} :
    Lists document "nodes" before entry → entry.get? "span" = some raw → isObject raw = false →
    Refused document (.badSpan (placeAfter "nodes" before))
  /-- A part of an entry cannot be read. -/
  | badValue {list : String} {before : List Json} {entry : Json} {cause : Mishap} :
    Lists document list before entry → Misread list entry cause → isLocated cause = true →
    Refused document (.badValue (placeAfter list before) cause)

/-- What is repeated in a document. -/
inductive Repeats (document : Json) : Malformed → Prop
  | name {before : List Json} {entry earlier : Json} {name : String} :
    Lists document "registers" before entry → earlier ∈ before → entryName entry = some name →
    entryName earlier = some name → Repeats document (.declaredTwice name)
  | id {before : List Json} {entry earlier : Json} {id : Int} :
    Lists document "nodes" before entry → earlier ∈ before → entryId entry = some id →
    entryId earlier = some id → Repeats document (.duplicateId id)

/-- What escapes without a place. -/
inductive Escapes (document : Json) : Mishap → Prop
  /-- The registers or the nodes are no list. -/
  | unlisted {list : String} {raw : Json} :
    list ∈ ["registers", "nodes"] → document.get? list = some raw →
    raw.toItems = .error (.notIterable raw.kindName) →
    Escapes document (.notIterable raw.kindName)
  /-- An infinity stands where an integer belongs. -/
  | infinity {list : String} {before : List Json} {entry : Json} {negative : Bool} :
    Lists document list before entry → AsInteger list entry (.real (.infinite negative)) →
    Escapes document .infinityAsInteger
  /-- A declared range is an object. -/
  | bounds {before : List Json} {entry : Json} {fields : List (String × Json)} :
    Lists document "nodes" before entry → entry.get? "bounds" = some (.obj fields) →
    Escapes document (.noSuchIndex 0)

/-- A failure can be pointed at in the document. -/
def Explained (document : Json) : DecodeFailure → Prop
  | .document cause => Refused document cause
  | .malformed cause => Repeats document cause
  | .mishap cause => Escapes document cause

/-! ## Reading values -/

private theorem toInt_eq_error {value : Json} {cause : Mishap} (h : value.toInt = .error cause)
    (hlocated : isLocated cause = false) :
    cause = .infinityAsInteger ∧ ∃ negative, value = .real (.infinite negative) := by
  cases value with
  | real x =>
    cases x with
    | infinite negative =>
      cases h
      exact ⟨rfl, negative, rfl⟩
    | nan payload =>
      cases h
      cases hlocated
    | finite negative significand exponent => cases h
  | str s =>
    rw [Json.toInt] at h
    split at h
    · cases h
    · cases h
      cases hlocated
  | int n => cases h
  | bool b => cases h
  | null | arr items | obj entries =>
    cases h
    cases hlocated

theorem toItems_eq_error {cause : Mishap} (h : raw.toItems = .error cause) :
    cause = .notIterable raw.kindName := by
  cases raw <;> cases h <;> rfl

private theorem item_eq_error {index : Nat} {cause : Mishap} (h : raw.item index = .error cause)
    (hlocated : isLocated cause = false) :
    cause = .noSuchIndex index ∧ ∃ fields, raw = .obj fields := by
  cases raw with
  | obj fields =>
    cases h
    exact ⟨rfl, fields, rfl⟩
  | arr items | str s =>
    rw [Json.item] at h
    split at h
    · cases h
    · cases h
      cases hlocated
  | _ =>
    cases h
    cases hlocated

/-- What goes wrong in an entry is reported with its place, or escapes. -/
theorem Misread.escapes {cause : Mishap} (hentry : Lists document list before entry)
    (h : Misread list entry cause) (hlocated : isLocated cause = false) :
    Escapes document cause := by
  cases h with
  | integer hvalue herror =>
    obtain ⟨rfl, negative, rfl⟩ := toInt_eq_error herror hlocated
    exact .infinity hentry hvalue
  | operands _ herror =>
    rw [toItems_eq_error herror] at hlocated
    cases hlocated
  | @bounds _ _ index _ hraw _ hbefore herror =>
    obtain ⟨rfl, fields, rfl⟩ := item_eq_error herror hlocated
    -- an object has no first end either
    obtain rfl : index = 0 := by
      by_contra hne
      cases hbefore 0 (Nat.pos_of_ne_zero hne)
    exact .bounds hentry hraw
  | register => cases hlocated

theorem explained_of_locate {α : Type} {x : Except Mishap α} {failure : DecodeFailure}
    (hentry : Lists document list before entry)
    (hx : ∀ cause, x = .error cause → Misread list entry cause)
    (h : locate (placeAfter list before) x = .error failure) : Explained document failure := by
  cases x with
  | ok value => cases h
  | error cause =>
    rw [locate] at h
    split at h
    case isTrue hlocated =>
      cases h
      exact .badValue hentry (hx cause rfl) hlocated
    case isFalse hlocated =>
      cases h
      exact (hx cause rfl).escapes hentry (Bool.eq_false_iff.mpr hlocated)

theorem locate_eq_ok {α : Type} {place : String} {x : Except Mishap α} {value : α} :
    locate place x = .ok value ↔ x = .ok value := by
  cases x with
  | ok value' => simp [locate]
  | error cause =>
    rw [locate]
    split <;> simp

theorem required_eq_ok {key place : String} {value : Json} :
    required entry key place = .ok value ↔ entry.get? key = some value := by
  rw [required]
  cases entry.get? key <;> simp

theorem explained_of_required {key : String} {failure : DecodeFailure}
    (hentry : Lists document list before entry)
    (hkey : (list, key) ∈ [("registers", "name"), ("nodes", "kind"), ("nodes", "id")])
    (h : required entry key (placeAfter list before) = .error failure) :
    Explained document failure := by
  rw [required] at h
  cases hget : entry.get? key with
  | some value =>
    rw [hget] at h
    cases h
  | none =>
    rw [hget] at h
    cases h
    exact .missingKey hentry hkey hget

theorem get?_of_optional {key : String} {value : Json} (h : optional entry key = some value) :
    entry.get? key = some value ∧ value ≠ .null := by
  rw [optional] at h
  split at h
  case h_1 => cases h
  case h_2 hnull =>
    refine ⟨h, ?_⟩
    rintro rfl
    exact hnull h

/-! ## Registers -/

theorem optionalInt_eq_error {key : String} {cause : Mishap}
    (h : optionalInt entry key = .error cause) :
    ∃ value, entry.get? key = some value ∧ value.toInt = .error cause := by
  rw [optionalInt, optional] at h
  cases hget : entry.get? key with
  | none =>
    rw [hget] at h
    cases h
  | some value =>
    rw [hget] at h
    refine ⟨value, rfl, ?_⟩
    cases value with
    | null => cases h
    | _ =>
      cases htoInt : Json.toInt _ with
      | ok n =>
        simp only [htoInt] at h
        cases h
      | error cause' =>
        simp only [htoInt] at h
        cases h
        rfl

theorem getD_toInt_eq_error {key : String} {n : Int} {cause : Mishap}
    (h : ((entry.get? key).getD (.int n)).toInt = .error cause) :
    ∃ value, entry.get? key = some value ∧ value.toInt = .error cause := by
  cases hget : entry.get? key with
  | none =>
    rw [hget] at h
    cases h
  | some value =>
    rw [hget] at h
    exact ⟨value, rfl, h⟩

private theorem placeAfter_registers (before : List Json) :
    placeAfter "registers" before = s!"registers[{before.length}]" := by
  rw [placeAfter]
  rfl

/-- The failure of a register can be pointed at, if the names declared are those of the entries
before it. -/
theorem decodeRegister_eq_error {failure : DecodeFailure}
    (hentry : Lists document "registers" before entry)
    (hnames : g.registers.map (some ·.name) = before.map entryName)
    (h : decodeRegister g before.length entry = .error failure) : Explained document failure := by
  rw [decodeRegister] at h
  simp only [← placeAfter_registers] at h
  split at h
  case isTrue hobject =>
    cases h
    exact .notAnEntry hentry (by simpa using hobject)
  case isFalse =>
    rcases Outcome.bind_eq_error.mp h with hname | ⟨name, hname, h⟩
    · exact explained_of_required hentry (by simp) hname
    rcases Outcome.bind_eq_error.mp h with hinit | ⟨init, -, h⟩
    · refine explained_of_locate hentry (fun cause hcause ↦ ?_) hinit
      obtain ⟨value, hvalue, herror⟩ := getD_toInt_eq_error hcause
      exact .integer (.field (by simp) hvalue) herror
    rcases Outcome.bind_eq_error.mp h with hwidth | ⟨width, -, h⟩
    · refine explained_of_locate hentry (fun cause hcause ↦ ?_) hwidth
      obtain ⟨value, hvalue, herror⟩ := optionalInt_eq_error hcause
      exact .integer (.field (by simp) hvalue) herror
    obtain ⟨cause, hdeclare, rfl⟩ := Outcome.mapError_eq_error.mp h
    obtain ⟨rfl, r, hfound⟩ := declare_eq_error hdeclare
    obtain ⟨hr, hsame⟩ := mem_registers_of_register?_eq_some hfound
    have hentryName : entryName entry = some name.plain := by
      rw [entryName, required_eq_ok.mp hname, Option.map_some]
    have hmem : some r.name ∈ before.map entryName := by
      rw [← hnames]
      exact List.mem_map.mpr ⟨r, hr, rfl⟩
    obtain ⟨earlier, hbefore, hearlier⟩ := List.mem_map.mp hmem
    exact .name hentry hbefore hentryName (hearlier.trans (congrArg some hsame))

theorem decodeRegister_eq_ok {index : Nat} (h : decodeRegister g index entry = .ok g') :
    ∃ r : Register, g.declare r = .ok g' ∧ entryName entry = some r.name := by
  rw [decodeRegister] at h
  split at h
  case isTrue => cases h
  case isFalse =>
    obtain ⟨name, hname, h⟩ := Outcome.bind_eq_ok.mp h
    obtain ⟨init, -, h⟩ := Outcome.bind_eq_ok.mp h
    obtain ⟨width, -, h⟩ := Outcome.bind_eq_ok.mp h
    refine ⟨_, Outcome.mapError_eq_ok.mp h, ?_⟩
    rw [entryName, required_eq_ok.mp hname, Option.map_some]

/-! ## Nodes -/

private theorem placeAfter_nodes (before : List Json) :
    placeAfter "nodes" before = s!"nodes[{before.length}]" := by
  rw [placeAfter]
  rfl

private theorem explained_of_decodeSpan {failure : DecodeFailure}
    (hentry : Lists document "nodes" before entry) (hraw : entry.get? "span" = some raw)
    (h : decodeSpan (placeAfter "nodes" before) raw = .error failure) :
    Explained document failure := by
  cases raw with
  | obj fields =>
    refine explained_of_locate hentry (fun cause hcause ↦ ?_) h
    rcases Outcome.bind_eq_error.mp hcause with hline | ⟨line, -, hcause⟩
    · obtain ⟨value, hvalue, herror⟩ := getD_toInt_eq_error hline
      exact .integer (.position hraw (by simp) hvalue) herror
    rcases Outcome.bind_eq_error.mp hcause with hcolumn | ⟨column, -, hcause⟩
    · obtain ⟨value, hvalue, herror⟩ := getD_toInt_eq_error hcolumn
      exact .integer (.position hraw (by simp) hvalue) herror
    cases hcause
  | _ =>
    cases h
    exact .badSpan hentry hraw rfl

private theorem misread_of_decodeBounds {cause : Mishap} (hraw : entry.get? "bounds" = some raw)
    (h : decodeBounds raw = .error cause) : Misread "nodes" entry cause := by
  rcases Outcome.bind_eq_error.mp h with hitem | ⟨first, hfirst, h⟩
  · exact .bounds hraw (by decide : 0 < 2) (by simp) hitem
  rcases Outcome.bind_eq_error.mp h with hlo | ⟨lo, -, h⟩
  · exact .integer (.bound hraw (by decide : 0 < 2) hfirst) hlo
  rcases Outcome.bind_eq_error.mp h with hitem | ⟨second, hsecond, h⟩
  · refine .bounds hraw (by decide : 1 < 2) (fun i hi ↦ ?_) hitem
    rw [Nat.lt_one_iff.mp hi, hfirst]
    rfl
  rcases Outcome.bind_eq_error.mp h with hhi | ⟨hi, -, h⟩
  · exact .integer (.bound hraw (by decide : 1 < 2) hsecond) hhi
  cases h

private theorem explained_of_decodeKind {failure : DecodeFailure}
    (hentry : Lists document "nodes" before entry) (hraw : entry.get? "kind" = some raw)
    (h : decodeKind (placeAfter "nodes" before) raw = .error failure) :
    Explained document failure := by
  cases raw with
  | str name =>
    rw [decodeKind] at h
    cases hname : Kind.ofName? name with
    | some kind =>
      rw [hname] at h
      cases h
    | none =>
      rw [hname] at h
      cases h
      refine .unknownKind hentry hraw ?_
      rintro kind ⟨⟩
      rw [Kind.ofName?_name] at hname
      cases hname
  | _ =>
    cases h
    exact .unknownKind hentry hraw fun kind ↦ by simp

/-- The declared range of an entry, if it has one. -/
def boundsPart (place : String) (entry : Json) : Except DecodeFailure (Option (Int × Int)) :=
  match optional entry "bounds" with
  | none => .ok none
  | some raw => (locate place (decodeBounds raw)).map some

/-- The span of an entry, if it has one. -/
def spanPart (place : String) (entry : Json) : Except DecodeFailure (Option Span) :=
  match entry.get? "span" with
  | none => .ok none
  | some raw => (decodeSpan place raw).map some

theorem decodeOperation_eq (place : String) (kind : Kind) (entry : Json) :
    decodeOperation place kind entry = (do
      let rawId ← required entry "id" place
      let id ← locate place rawId.toInt
      let items ← locate place ((entry.get? "operands").getD (.arr [])).toItems
      let operands ← locate place (items.mapM Json.toInt)
      let value ← locate place (optionalInt entry "value")
      let bounds ← boundsPart place entry
      let span ← spanPart place entry
      return ({ kind, operands, value, register := optional entry "register", bounds
                name := optional entry "name", span }, id)) := by
  rw [decodeOperation]
  refine bind_congr fun rawId ↦ bind_congr fun id ↦ bind_congr fun items ↦
    bind_congr fun operands ↦ bind_congr fun value ↦ ?_
  rw [boundsPart, spanPart]
  cases optional entry "bounds" <;> cases entry.get? "span" <;>
    simp only [Outcome.map_bind, Outcome.ok_bind, pure_bind]

private theorem misread_of_items {cause : Mishap}
    (h : ((entry.get? "operands").getD (.arr [])).toItems = .error cause) :
    Misread "nodes" entry cause := by
  cases hget : entry.get? "operands" with
  | none =>
    rw [hget] at h
    cases h
  | some raw =>
    rw [hget] at h
    exact .operands hget h

private theorem misread_of_operands {items : List Json} {cause : Mishap}
    (hitems : ((entry.get? "operands").getD (.arr [])).toItems = .ok items)
    (h : items.mapM Json.toInt = .error cause) : Misread "nodes" entry cause := by
  obtain ⟨value, hmem, herror⟩ := Outcome.exists_of_mapM_eq_error h
  cases hget : entry.get? "operands" with
  | none =>
    rw [hget] at hitems
    cases hitems
    cases hmem
  | some raw =>
    rw [hget] at hitems
    exact .integer (.operand hget hitems hmem) herror

private theorem explained_of_boundsPart {failure : DecodeFailure}
    (hentry : Lists document "nodes" before entry)
    (h : boundsPart (placeAfter "nodes" before) entry = .error failure) :
    Explained document failure := by
  rw [boundsPart] at h
  split at h
  case h_1 => cases h
  case h_2 raw hoptional =>
    refine explained_of_locate hentry (fun cause hcause ↦ ?_) (Outcome.map_eq_error.mp h)
    exact misread_of_decodeBounds (get?_of_optional hoptional).1 hcause

private theorem explained_of_spanPart {failure : DecodeFailure}
    (hentry : Lists document "nodes" before entry)
    (h : spanPart (placeAfter "nodes" before) entry = .error failure) :
    Explained document failure := by
  rw [spanPart] at h
  split at h
  case h_1 => cases h
  case h_2 raw hget => exact explained_of_decodeSpan hentry hget (Outcome.map_eq_error.mp h)

/-- The failure of the parts of a node can be pointed at. -/
theorem explained_of_decodeOperation {kind : Kind} {failure : DecodeFailure}
    (hentry : Lists document "nodes" before entry)
    (h : decodeOperation (placeAfter "nodes" before) kind entry = .error failure) :
    Explained document failure := by
  rw [decodeOperation_eq] at h
  rcases Outcome.bind_eq_error.mp h with hraw | ⟨rawId, hraw, h⟩
  · exact explained_of_required hentry (by simp) hraw
  rcases Outcome.bind_eq_error.mp h with hid | ⟨id, -, h⟩
  · refine explained_of_locate hentry (fun cause hcause ↦ ?_) hid
    exact .integer (.field (by simp) (required_eq_ok.mp hraw)) hcause
  rcases Outcome.bind_eq_error.mp h with hitems | ⟨items, hitems, h⟩
  · exact explained_of_locate hentry (fun cause ↦ misread_of_items) hitems
  rcases Outcome.bind_eq_error.mp h with hoperands | ⟨operands, -, h⟩
  · exact explained_of_locate hentry (fun cause ↦ misread_of_operands (locate_eq_ok.mp hitems))
      hoperands
  rcases Outcome.bind_eq_error.mp h with hvalue | ⟨value, -, h⟩
  · refine explained_of_locate hentry (fun cause hcause ↦ ?_) hvalue
    obtain ⟨value, hget, herror⟩ := optionalInt_eq_error hcause
    exact .integer (.field (by simp) hget) herror
  rcases Outcome.bind_eq_error.mp h with hbounds | ⟨bounds, -, h⟩
  · exact explained_of_boundsPart hentry hbounds
  rcases Outcome.bind_eq_error.mp h with hspan | ⟨span, -, h⟩
  · exact explained_of_spanPart hentry hspan
  cases h

theorem decodeOperation_eq_ok {place : String} {kind : Kind} {operation : Operation} {id : Int}
    (h : decodeOperation place kind entry = .ok (operation, id)) :
    entryId entry = some id ∧ operation.register = optional entry "register" ∧
      operation.name = optional entry "name" := by
  rw [decodeOperation_eq] at h
  obtain ⟨rawId, hraw, h⟩ := Outcome.bind_eq_ok.mp h
  obtain ⟨id', hid, h⟩ := Outcome.bind_eq_ok.mp h
  obtain ⟨items, -, h⟩ := Outcome.bind_eq_ok.mp h
  obtain ⟨operands, -, h⟩ := Outcome.bind_eq_ok.mp h
  obtain ⟨value, -, h⟩ := Outcome.bind_eq_ok.mp h
  obtain ⟨bounds, -, h⟩ := Outcome.bind_eq_ok.mp h
  obtain ⟨span, -, h⟩ := Outcome.bind_eq_ok.mp h
  cases h
  refine ⟨?_, rfl, rfl⟩
  rw [entryId, required_eq_ok.mp hraw, Option.bind_some, locate_eq_ok.mp hid]
  rfl

/-- The failure of a node can be pointed at, if the ids in use are those of the entries before
it. -/
theorem decodeNode_eq_error {failure : DecodeFailure}
    (hentry : Lists document "nodes" before entry)
    (hids : g.ids.map some = before.map entryId)
    (h : decodeNode g before.length entry = .error failure) : Explained document failure := by
  rw [decodeNode] at h
  simp only [← placeAfter_nodes] at h
  split at h
  case isTrue hobject =>
    cases h
    exact .notAnEntry hentry (by simpa using hobject)
  case isFalse =>
    rcases Outcome.bind_eq_error.mp h with hraw | ⟨raw, hraw, h⟩
    · exact explained_of_required hentry (by simp) hraw
    rcases Outcome.bind_eq_error.mp h with hkind | ⟨kind, -, h⟩
    · exact explained_of_decodeKind hentry (required_eq_ok.mp hraw) hkind
    rcases Outcome.bind_eq_error.mp h with hoperation | ⟨⟨operation, id⟩, hoperation, h⟩
    · exact explained_of_decodeOperation hentry hoperation
    obtain ⟨hid, hregister, -⟩ := decodeOperation_eq_ok hoperation
    rcases Outcome.bind_eq_error.mp h with hadd | ⟨added, -, h⟩
    · obtain ⟨cause, hcause, rfl⟩ := Outcome.mapError_eq_error.mp hadd
      obtain ⟨rfl, htaken⟩ := add_eq_error hcause
      have hmem : some id ∈ before.map entryId := by
        rw [← hids]
        exact List.mem_map_of_mem (contains_iff.mp htaken)
      obtain ⟨earlier, hbefore, hearlier⟩ := List.mem_map.mp hmem
      exact .id hentry hbefore hid hearlier
    · dsimp only at h
      split at h
      case isTrue => cases h
      case isFalse hkey =>
        cases h
        rw [registerIsKey, Bool.or_eq_true, not_or] at hkey
        cases hsome : operation.register with
        | none => simp [hsome] at hkey
        | some register =>
          have hget := (get?_of_optional (hregister.symm.trans hsome)).1
          exact .badValue hentry (.register hget (by simpa [hsome] using hkey.2)) rfl

theorem decodeNode_eq_ok {index : Nat} (h : decodeNode g index entry = .ok g') :
    ∃ operation id, g.add operation (some id) = .ok (g', id) ∧ entryId entry = some id ∧
      registerIsKey operation = true ∧ operation.register = optional entry "register" ∧
      operation.name = optional entry "name" := by
  rw [decodeNode] at h
  split at h
  case isTrue => cases h
  case isFalse =>
    obtain ⟨raw, -, h⟩ := Outcome.bind_eq_ok.mp h
    obtain ⟨kind, -, h⟩ := Outcome.bind_eq_ok.mp h
    obtain ⟨⟨operation, id⟩, hoperation, h⟩ := Outcome.bind_eq_ok.mp h
    obtain ⟨⟨added, id'⟩, hadd, h⟩ := Outcome.bind_eq_ok.mp h
    dsimp only at h hadd
    split at h
    case isFalse => cases h
    case isTrue hkey =>
      cases h
      rw [Outcome.mapError_eq_ok] at hadd
      obtain ⟨rfl, -⟩ := add_eq_ok hadd
      obtain ⟨hid, hregister, hname⟩ := decodeOperation_eq_ok hoperation
      exact ⟨operation, _, hadd, hid, hkey, hregister, hname⟩

/-! ## Lists of entries -/

/-- Entries are decoded one after another. If each can be decoded or fails for a reason in the graph
of those before it, then so does the list. -/
theorem decodeEach_cases {step : Graph → Nat → Json → Except DecodeFailure Graph}
    (P : List Json → Graph → Prop) (hlist : list ∈ ["registers", "nodes"]) (hstart : P [] g)
    (hok : ∀ before entry, Lists document list before entry → ∀ g g', P before g →
      step g before.length entry = .ok g' → P (before ++ [entry]) g')
    (herror : ∀ before entry, Lists document list before entry → ∀ g failure, P before g →
      step g before.length entry = .error failure → Explained document failure) :
    (∃ g' items, decodeEach step g ((document.get? list).getD (.arr [])) = .ok g' ∧ P items g') ∨
      ∃ failure, decodeEach step g ((document.get? list).getD (.arr [])) = .error failure ∧
        Explained document failure := by
  rw [decodeEach]
  cases hget : document.get? list with
  | none => exact Or.inl ⟨g, [], rfl, hstart⟩
  | some raw =>
    rw [Option.getD_some]
    cases hitems : raw.toItems with
    | error cause =>
      refine Or.inr ⟨.mishap cause, rfl, ?_⟩
      obtain rfl := toItems_eq_error hitems
      exact .unlisted hlist hget hitems
    | ok items =>
      rw [Except.mapError, Outcome.ok_bind]
      -- the state of the fold counts the entries before
      have hbefore : ∀ before after state, items = before ++ after →
          before.foldlM (fun (state : Graph × Nat) entry ↦
            do return (← step state.1 state.2 entry, state.2 + 1)) (g, 0) = .ok state →
          state.2 = before.length ∧ P before state.1 := by
        intro before after state heq hrun
        refine Outcome.foldlM_induction
          (fun done state ↦ state.2 = done.length ∧ P done state.1) ?_ ⟨rfl, hstart⟩ hrun
        rintro done entry rest hsplit ⟨g₁, index⟩ ⟨g₂, index'⟩ ⟨rfl, hdone⟩ hentry
        obtain ⟨g₃, hg₃, hentry⟩ := Outcome.bind_eq_ok.mp hentry
        cases hentry
        refine ⟨by simp, hok done entry ⟨raw, rest ++ after, hget, ?_⟩ g₁ g₂ hdone hg₃⟩
        rw [hitems, heq, hsplit, List.append_assoc, List.cons_append]
      cases hrun : items.foldlM (fun (state : Graph × Nat) entry ↦
          do return (← step state.1 state.2 entry, state.2 + 1)) (g, 0) with
      | ok state =>
        exact Or.inl ⟨state.1, items, rfl, (hbefore items [] state (List.append_nil _).symm hrun).2⟩
      | error failure =>
        refine Or.inr ⟨failure, rfl, ?_⟩
        obtain ⟨before, entry, after, ⟨g', index⟩, rfl, hdone, hentry⟩ :=
          Outcome.exists_of_foldlM_eq_error hrun
        obtain ⟨rfl, hP⟩ := hbefore before (entry :: after) _ rfl hdone
        rcases Outcome.bind_eq_error.mp hentry with hfailure | ⟨_, -, hfailure⟩
        · exact herror before entry ⟨raw, after, hget, hitems⟩ g' failure hP hfailure
        · cases hfailure

/-! ## Documents -/

/-- What is true of every graph that is decoded. -/
structure Decoded (g : Graph) : Prop where
  /-- It has been built step by step. -/
  built : g.Built
  /-- Nothing is known of its layout. -/
  forget_eq : g.forget = g
  /-- A document can say what its nodes are. -/
  nodes : ∀ n ∈ g.nodes, n.Expressible

/-- The registers of some entries have been decoded. -/
structure DecodedRegisters (before : List Json) (g : Graph) : Prop extends Decoded g where
  /-- There are no nodes yet. -/
  nodes_eq : g.nodes = []
  /-- The names are those of the entries. -/
  names_eq : g.registers.map (some ·.name) = before.map entryName

/-- The nodes of some entries have been decoded. -/
structure DecodedNodes (before : List Json) (g : Graph) : Prop extends Decoded g where
  /-- The ids are those of the entries. -/
  ids_eq : g.ids.map some = before.map entryId

private theorem decodedRegisters_nil : DecodedRegisters [] empty :=
  ⟨⟨.empty, rfl, by simp [empty]⟩, rfl, rfl⟩

theorem DecodedRegisters.step {index : Nat} (h : DecodedRegisters before g)
    (hstep : decodeRegister g index entry = .ok g') : DecodedRegisters (before ++ [entry]) g' := by
  obtain ⟨r, hdeclare, hname⟩ := decodeRegister_eq_ok hstep
  have hbuilt : g'.Built := .declare h.built hdeclare
  obtain ⟨-, rfl⟩ := declare_eq_ok hdeclare
  have hforget := congrArg (fun g : Graph ↦
    { g with registers := g.registers ++ [r], validated := false }) h.forget_eq
  refine ⟨⟨hbuilt, hforget, h.nodes⟩, h.nodes_eq, ?_⟩
  simp [h.names_eq, hname]

theorem DecodedNodes.step {index : Nat} (h : DecodedNodes before g)
    (hstep : decodeNode g index entry = .ok g') : DecodedNodes (before ++ [entry]) g' := by
  obtain ⟨operation, id, hadd, hid, hkey, hregister, hname⟩ := decodeNode_eq_ok hstep
  have hbuilt : g'.Built := .add h.built hadd
  obtain ⟨-, -, rfl⟩ := add_eq_ok hadd
  refine ⟨⟨hbuilt, ?_, ?_⟩, ?_⟩
  · exact congrArg (fun g : Graph ↦ { g with
      nodes := g.nodes ++ [(⟨operation, id⟩ : Node)]
      nextId := max g.nextId (id + 1)
      index := g.index.enter ⟨operation, id⟩
      validated := false }) h.forget_eq
  · rw [List.forall_mem_append, List.forall_mem_singleton]
    refine ⟨h.nodes, ⟨fun hnull ↦ ?_, fun hnull ↦ ?_, hkey⟩⟩
    · exact (get?_of_optional (hregister.symm.trans hnull)).2 rfl
    · exact (get?_of_optional (hname.symm.trans hnull)).2 rfl
  · have hids := h.ids_eq
    rw [ids] at hids ⊢
    simp only [List.map_append, hids, List.map_cons, List.map_nil, hid]

/-- Decoding a document gives a graph, or fails for a reason. -/
theorem ofDocument_cases (document : Json) :
    (∃ g, ofDocument document = .ok g ∧ g.Decoded) ∨
      ∃ failure, ofDocument document = .error failure ∧ Explained document failure := by
  rw [ofDocument]
  split
  case isTrue hobject =>
    exact Or.inr ⟨_, rfl, .notAnObject (by simpa using hobject)⟩
  case isFalse =>
    rcases decodeEach_cases DecodedRegisters (by simp) decodedRegisters_nil
      (fun _ _ _ _ _ hg ↦ hg.step)
      (fun _ _ hentry _ _ hg ↦ decodeRegister_eq_error hentry hg.names_eq) with
      ⟨g, items, hregisters, hdecoded⟩ | ⟨failure, hfailure, hexplained⟩
    swap
    · exact Or.inr ⟨failure, Outcome.bind_eq_error.mpr (Or.inl hfailure), hexplained⟩
    have hstart : DecodedNodes [] g := ⟨hdecoded.toDecoded, by rw [ids, hdecoded.nodes_eq]; rfl⟩
    rcases decodeEach_cases DecodedNodes (by simp) hstart (fun _ _ _ _ _ hg ↦ hg.step)
      (fun _ _ hentry _ _ hg ↦ decodeNode_eq_error hentry hg.ids_eq) with
      ⟨g', items', hnodes, hdecoded'⟩ | ⟨failure, hfailure, hexplained⟩
    · exact Or.inl ⟨g', Outcome.bind_eq_ok.mpr ⟨g, hregisters, hnodes⟩, hdecoded'.toDecoded⟩
    · exact Or.inr ⟨failure, Outcome.bind_eq_error.mpr (Or.inr ⟨g, hregisters, hfailure⟩),
        hexplained⟩

/-- **Decoding fails only for a reason.** For every value the outcome is a graph, or a refusal, or a
repeated name or id, each of which can be pointed at in the document; or else a mishap escapes, and
then a list of entries is no list, an infinity stands where an integer belongs, or a declared range
is an object. -/
theorem ofDocument_outcomes (document : Json) :
    (∃ g, ofDocument document = .ok g ∧ g.Built) ∨
    (∃ cause, ofDocument document = .error (.document cause) ∧ Refused document cause) ∨
    (∃ cause, ofDocument document = .error (.malformed cause) ∧ Repeats document cause) ∨
    ∃ cause, ofDocument document = .error (.mishap cause) ∧ Escapes document cause := by
  rcases ofDocument_cases document with ⟨g, hg, hdecoded⟩ | ⟨failure, hfailure, hexplained⟩
  · exact Or.inl ⟨g, hg, hdecoded.built⟩
  · cases failure with
    | document cause => exact Or.inr (Or.inl ⟨cause, hfailure, hexplained⟩)
    | malformed cause => exact Or.inr (Or.inr (Or.inl ⟨cause, hfailure, hexplained⟩))
    | mishap cause => exact Or.inr (Or.inr (Or.inr ⟨cause, hfailure, hexplained⟩))

/-- Null for the registers, an infinite id, and bounds given as an object escape. -/
theorem ofDocument_escapes :
    ofDocument (.obj [("registers", .null)]) = .error (.mishap (.notIterable "NoneType")) ∧
    ofDocument (.obj [("nodes", .arr [.obj [("id", .real (.infinite false)),
      ("kind", .str "const")]])]) = .error (.mishap .infinityAsInteger) ∧
    ofDocument (.obj [("nodes", .arr [.obj [("id", .int 0), ("kind", .str "input"),
      ("bounds", .obj [("lo", .int 0), ("hi", .int 1)])]])]) =
      .error (.mishap (.noSuchIndex 0)) :=
  ⟨rfl, rfl, rfl⟩

end Datapath.Graph
