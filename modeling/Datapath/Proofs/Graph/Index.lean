import Datapath.Graph.Basic
import Mathlib.Data.List.Induction

/-!
# What the tables of a graph hold

Tables are kept up to date node by node. Under the id of a node stand its consumers, in the order of
the nodes and once for each use; under the name of a register stand the nodes that read it, or
those that write it. These are the three views of a list of nodes, `Index.consumers_ofNodes`,
`Index.reads_ofNodes` and `Index.writes_ofNodes`.

Documents may put any value where a register belongs, but only a text can name a declared register.
The tables of reads and writes are therefore described for texts.
-/

namespace Datapath

/-! ## Naming registers -/

theorem Json.sameName_str (a : Json) (s : String) : a.sameName (.str s) = true ↔ a = .str s := by
  cases a <;> simp [Json.sameName, Json.number?]

namespace Node

variable {n : Node} {name : String}

private theorem names_str : n.names (.str name) = true ↔ n.register = some (.str name) := by
  rw [names]
  cases n.register with
  | none => simp
  | some r => simp [Json.sameName_str]

theorem registerName?_eq_some : n.registerName? = some name ↔ n.register = some (.str name) := by
  rw [registerName?]
  split
  case h_1 s h => simp [h]
  case h_2 h =>
    constructor
    · intro hnone
      cases hnone
    · intro hname
      exact absurd hname (h name)

private theorem names_text (n : Node) (name : String) :
    n.names (.str name) = decide (n.registerName? = some name) := by
  rw [Bool.eq_iff_iff, names_str, decide_eq_true_eq, registerName?_eq_some]

end Node

/-! ## Tables -/

namespace Table

variable {κ : Type} {same : κ → κ → Bool} {key k : κ} {id : Int}

theorem listed_cons (ids : List Int) (t : Table κ) :
    listed same ((k, ids) :: t) key = if same k key then ids else listed same t key := by
  rw [listed, listed, List.find?_cons]
  cases same k key <;> rfl

/-- An id that is entered comes last under its key, and the other keys are left as they are. The key
asked for must be the same as no other. -/
theorem listed_enter (hleft : ∀ a, same a k = true ↔ a = k) (hright : ∀ a, same k a = true → a = k)
    (t : Table κ) :
    listed same (enter same key id t) k =
      listed same t k ++ if same key k then [id] else [] := by
  induction t with
  | nil =>
    rw [enter, listed_cons]
    cases same key k <;> rfl
  | cons entry t ih =>
    obtain ⟨a, ids⟩ := entry
    rw [enter]
    by_cases ha : a = k
    · subst ha
      have hsame : same a key = same key a := by
        rw [Bool.eq_iff_iff, hleft]
        refine ⟨hright key, ?_⟩
        rintro rfl
        exact (hleft _).mpr rfl
      have hself : same a a = true := (hleft a).mpr rfl
      rw [hsame]
      cases same key a <;> simp [listed_cons, hself]
    · have hother : same a k = false := Bool.eq_false_iff.mpr (mt (hleft a).mp ha)
      cases hkey : same a key with
      | true =>
        have hne : same key k = false := by
          rw [Bool.eq_false_iff, Ne, hleft]
          rintro rfl
          rw [hother] at hkey
          cases hkey
        simp [listed_cons, hother, hne]
      | false => simp [listed_cons, hother, ih]

private theorem mem_listed_enter {x : Int} {t : Table κ}
    (h : x ∈ listed same (enter same key id t) k) : x ∈ listed same t k ∨ x = id := by
  induction t with
  | nil =>
    rw [enter, listed_cons] at h
    split_ifs at h
    · exact Or.inr (List.mem_singleton.mp h)
    · cases h
  | cons entry t ih =>
    obtain ⟨a, ids⟩ := entry
    rw [enter] at h
    rw [listed_cons]
    split_ifs at h with hkey
    · rw [listed_cons] at h
      split_ifs at h ⊢
      · exact (List.mem_append.mp h).imp_right List.mem_singleton.mp
      · exact Or.inl h
    · rw [listed_cons] at h
      split_ifs at h ⊢
      · exact Or.inl h
      · exact ih h

end Table

/-! ## The three tables -/

namespace Index

theorem ofNodes_concat (nodes : List Node) (n : Node) :
    ofNodes (nodes ++ [n]) = (ofNodes nodes).enter n := by
  rw [ofNodes, List.foldl_append]
  rfl

private theorem listed_foldl_enter (operands : List Int) (id id' : Int) (t : Table Int) :
    Table.listed (· == ·) (operands.foldl (fun t o ↦ Table.enter (· == ·) o id' t) t) id =
      Table.listed (· == ·) t id ++ List.replicate (operands.count id) id' := by
  induction operands generalizing t with
  | nil => simp
  | cons o operands ih =>
    rw [List.foldl_cons, ih, Table.listed_enter (fun _ ↦ beq_iff_eq)
      (fun _ h ↦ (beq_iff_eq.mp h).symm), List.append_assoc, List.count_cons]
    congr 1
    cases o == id <;> simp [List.replicate_succ]

/-- The consumers of a node are listed in order, once for each use. -/
theorem consumers_ofNodes (nodes : List Node) (id : Int) :
    Table.listed (· == ·) (ofNodes nodes).consumers id =
      nodes.flatMap fun n ↦ List.replicate (n.operands.count id) n.id := by
  induction nodes using List.reverseRecOn with
  | nil => rfl
  | append_singleton nodes n ih =>
    rw [ofNodes_concat, enter, listed_foldl_enter, ih, List.flatMap_append, List.flatMap_singleton]

/-- The nodes of a kind that name a register. -/
def naming (kind : Kind) (name : String) (nodes : List Node) : List Int :=
  (nodes.filter fun n ↦ n.kind = kind && n.registerName? = some name).map (·.id)

theorem mem_naming {kind : Kind} {name : String} {nodes : List Node} {id : Int} :
    id ∈ naming kind name nodes ↔
      ∃ n ∈ nodes, n.kind = kind ∧ n.register = some (.str name) ∧ n.id = id := by
  simp only [naming, List.mem_map, List.mem_filter, Bool.and_eq_true, decide_eq_true_eq,
    Node.registerName?_eq_some, and_assoc]

private theorem listed_enterNamed (kind : Kind) (n : Node) (t : Table Json) (name : String) :
    Table.listed Json.sameName (if n.kind = kind then enterNamed n t else t) (.str name) =
      Table.listed Json.sameName t (.str name) ++ naming kind name [n] := by
  have hentered : Table.listed Json.sameName (enterNamed n t) (.str name) =
      Table.listed Json.sameName t (.str name) ++ if n.names (.str name) then [n.id] else [] := by
    rw [enterNamed, Node.names]
    cases n.register with
    | none => simp
    | some register =>
      exact Table.listed_enter (fun a ↦ a.sameName_str name)
        (fun a ↦ by cases a <;> simp [Json.sameName, Json.number?, eq_comm]) t
  by_cases hkind : n.kind = kind
  · rw [if_pos hkind, hentered, naming, Node.names_text]
    by_cases hname : n.registerName? = some name <;> simp [hkind, hname]
  · simp [naming, hkind]

/-- A table into which the nodes of a kind are entered lists those that name a register. -/
private theorem listed_ofNodes {kind : Kind} {table : Index → Table Json}
    (hempty : table empty = [])
    (henter : ∀ index n, table (enter index n) =
      if n.kind = kind then enterNamed n (table index) else table index)
    (nodes : List Node) (name : String) :
    Table.listed Json.sameName (table (ofNodes nodes)) (.str name) = naming kind name nodes := by
  induction nodes using List.reverseRecOn with
  | nil =>
    rw [ofNodes, List.foldl_nil, hempty]
    rfl
  | append_singleton nodes n ih =>
    rw [ofNodes_concat, henter, listed_enterNamed, ih, naming, naming, naming, List.filter_append,
      List.map_append]

theorem reads_ofNodes (nodes : List Node) (name : String) :
    Table.listed Json.sameName (ofNodes nodes).reads (.str name) = naming .regRead name nodes :=
  listed_ofNodes rfl (fun _ _ ↦ rfl) nodes name

theorem writes_ofNodes (nodes : List Node) (name : String) :
    Table.listed Json.sameName (ofNodes nodes).writes (.str name) = naming .regWrite name nodes :=
  listed_ofNodes rfl (fun _ _ ↦ rfl) nodes name

theorem mem_ids_of_mem_writes {nodes : List Node} {register : Json} {id : Int}
    (h : id ∈ Table.listed Json.sameName (ofNodes nodes).writes register) :
    id ∈ nodes.map (·.id) := by
  induction nodes using List.reverseRecOn with
  | nil => cases h
  | append_singleton nodes n ih =>
    rw [List.map_append, List.mem_append, List.map_singleton, List.mem_singleton]
    rw [ofNodes_concat, enter] at h
    dsimp only at h
    split_ifs at h with hkind
    · rw [enterNamed] at h
      cases hregister : n.register with
      | none => exact Or.inl (ih (by rwa [hregister] at h))
      | some key =>
        rw [hregister] at h
        exact (Table.mem_listed_enter h).imp_left ih
    · exact Or.inl (ih h)

end Index

end Datapath
