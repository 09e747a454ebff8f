import Datapath.Proofs.Depth.Chain

/-!
# Classes of nodes

A node is classified by the terminals that its value reaches: a register write, an output, or both.
One pass over the nodes, from the last to the first, gives each the classes of its consumers and,
for a terminal, its own.

## One pass is enough

The pass looks up what it has found for the consumers so far. In the order of operations a consumer
comes after its operands, so the pass from the end has dealt with every consumer before. What is
found for a node therefore satisfies the equation of reachability: a node reaches a terminal if it
is one, or if one of its consumers does. A terminal may itself be consumed, and then it has the
classes of its consumers besides its own.
-/

namespace Datapath

open Relation

/-- The kind of the terminals at which the paths of a class end. -/
def PathClass.terminal : PathClass → Kind
  | .feedforward => .output
  | .feedbackToState => .regWrite

namespace Reach

variable {r : Reach} {c : PathClass}

def has (r : Reach) : PathClass → Bool
  | .feedforward => r.outside
  | .feedbackToState => r.state

theorem mem_names_iff : c.name ∈ r.names ↔ r.has c = true := by
  obtain ⟨state, outside⟩ := r
  cases c <;> cases state <;> cases outside <;> decide

@[simp] theorem has_union (a b : Reach) (c : PathClass) :
    (a.union b).has c = (a.has c || b.has c) := by
  cases c <;> rfl

@[simp] theorem has_own (k : Kind) (c : PathClass) : (own k).has c = decide (k = c.terminal) := by
  cases c <;> rfl

theorem has_foldl_union {α : Type} (f : α → Reach) (xs : List α) (start : Reach) :
    (xs.foldl (fun reach x ↦ reach.union (f x)) start).has c = true ↔
      start.has c = true ∨ ∃ x ∈ xs, (f x).has c = true := by
  induction xs generalizing start with
  | nil => simp
  | cons x xs ih =>
    rw [List.foldl_cons, ih, has_union, Bool.or_eq_true, or_assoc, List.exists_mem_cons_iff]

end Reach

/-! ## Reaching terminals -/

namespace Graph

variable {g : Graph} {n : Node} {c : PathClass}

/-- A node is a terminal of a class, or reaches one through consumers. -/
def LeadsTo (g : Graph) (id : Int) (c : PathClass) : Prop :=
  ∃ t ∈ g.nodes, t.kind = c.terminal ∧ Digraph.Reaches g.consumers id t.id

theorem leadsTo_iff (hg : g.Coherent) (hn : n ∈ g.nodes) :
    g.LeadsTo n.id c ↔ n.kind = c.terminal ∨ ∃ x ∈ g.consumers n.id, g.LeadsTo x c := by
  constructor
  · rintro ⟨t, ht, hkind, hreach⟩
    rcases hreach.cases_head with heq | ⟨x, hx, hreach⟩
    · left
      rwa [hg.eq_of_id_eq hn ht heq]
    · exact Or.inr ⟨x, hx, t, ht, hkind, hreach⟩
  · rintro (hkind | ⟨x, hx, t, ht, hkind, hreach⟩)
    · exact ⟨n, hn, hkind, ReflTransGen.refl⟩
    · exact ⟨t, ht, hkind, hreach.head hx⟩

end Graph

/-! ## The pass -/

namespace Depth

variable {g : Graph} {order : List Int}

/-- What is found for a node, given what has been found for its consumers. -/
theorem has_classes_head (hg : g.Coherent) {n : Node} (hn : n ∈ g.nodes)
    {found : List (Int × Reach)} {c : PathClass}
    (hfound : ∀ x ∈ g.consumers n.id, ∃ reach, found.lookup x = some reach ∧
      (reach.has c = true ↔ g.LeadsTo x c)) :
    ((g.consumers n.id).foldl
      (fun reach x ↦ reach.union ((found.lookup x).getD ⟨false, false⟩))
      (Reach.own (g.kindOf n.id))).has c = true ↔ g.LeadsTo n.id c := by
  rw [Reach.has_foldl_union, Reach.has_own, decide_eq_true_eq, hg.kindOf_id hn,
    Graph.leadsTo_iff hg hn]
  refine or_congr_right (exists_congr fun x ↦ and_congr_right fun hx ↦ ?_)
  obtain ⟨reach, hreach, hiff⟩ := hfound x hx
  rw [hreach, Option.getD_some, hiff]

theorem exists_lookup_classes (hg : g.Coherent) (hnodes : ∀ id ∈ order, id ∈ g.ids)
    (hafter : ∀ earlier id later, order = earlier ++ id :: later →
      ∀ x ∈ g.consumers id, x ∈ later) :
    ∀ id ∈ order, ∃ reach, (classes g order).lookup id = some reach ∧
      ∀ c, reach.has c = true ↔ g.LeadsTo id c := by
  induction order with
  | nil => simp
  | cons head rest ih =>
    have hrest := ih (fun id hid ↦ hnodes id (List.mem_cons_of_mem _ hid))
      fun earlier id later heq ↦ hafter (head :: earlier) id later (congrArg (head :: ·) heq)
    intro id hid
    rw [classes, List.foldr_cons, ← classes]
    by_cases hhead : id = head
    · subst hhead
      rw [List.lookup_cons_self]
      refine ⟨_, rfl, fun c ↦ ?_⟩
      obtain ⟨n, hn, rfl⟩ := List.mem_map.mp (hnodes id hid)
      apply has_classes_head hg hn
      intro x hx
      obtain ⟨reach, hreach, hiff⟩ := hrest x (hafter [] n.id rest rfl x hx)
      exact ⟨reach, hreach, hiff c⟩
    · obtain ⟨reach, hreach, hiff⟩ := hrest id ((List.mem_cons.mp hid).resolve_left hhead)
      refine ⟨reach, ?_, hiff⟩
      rwa [List.lookup_cons, beq_false_of_ne hhead]

private theorem classes_of_measure {weight : Kind → Int} {threshold : Int} {d : Display Int}
    {severity : Severity} {result : DepthResult}
    (h : measure g order weight threshold d severity = .ok result) :
    result.classes = classes g order := by
  obtain ⟨found, -, h⟩ := Outcome.bind_eq_ok.mp h
  obtain ⟨paths, -, h⟩ := Outcome.bind_eq_ok.mp h
  cases h
  rfl

end Depth

namespace Graph

variable {g : Graph} {layout : Layout} {threshold : Int}

theorem mem_later_of_mem_consumers (hg : g.Coherent) (hlegal : g.Legal) {earlier later : List Int}
    {id x : Int} (horder : g.readyOrder = earlier ++ id :: later) (hx : x ∈ g.consumers id) :
    x ∈ later := by
  have ho : id ∈ g.operands x := hg.mem_consumers_iff.mp hx
  obtain ⟨n, hn, rfl, -⟩ := exists_node_of_mem_operands ho
  have hmem : n.id ∈ g.readyOrder := hlegal.mem_readyOrder hg (mem_ids_of_mem_nodes hn)
  have hpairwise := pairwise_readyOrder hg
  rw [horder, List.pairwise_append] at hpairwise
  rw [horder, List.mem_append, List.mem_cons] at hmem
  rcases hmem with hearlier | heq | hlater
  · exact absurd ho (hpairwise.2.2 n.id hearlier id List.mem_cons_self)
  · exact absurd (TransGen.single (heq ▸ ho)) (hlegal.acyclic id)
  · exact hlater

/-- **The classes of a node are those of the terminals that it reaches.** Every node of a graph with
a layout is classified. It leads to state exactly when it is a register write or reaches one through
consumers, and it leads outside exactly when it is an output or reaches one. -/
theorem classes_are_reached_terminals (h : g.Built) (hlayout : g.layout = .ok layout)
    (w : WeightTable) (hthreshold : 0 ≤ threshold) (severity : Severity) :
    ∃ result, g.measureDepth w threshold severity = .ok result ∧
      ∀ n ∈ g.nodes, ∃ reach, result.classes.lookup n.id = some reach ∧
        (PathClass.feedbackToState.name ∈ reach.names ↔
          ∃ t ∈ g.nodes, t.kind = .regWrite ∧ Digraph.Reaches g.consumers n.id t.id) ∧
        (PathClass.feedforward.name ∈ reach.names ↔
          ∃ t ∈ g.nodes, t.kind = .output ∧ Digraph.Reaches g.consumers n.id t.id) := by
  have hg := h.coherent
  obtain ⟨hlegal, harranges⟩ := legal_of_computeLayout hg (hg.layout_eq ▸ hlayout)
  obtain ⟨result, hresult, -, -⟩ := exists_measureDepth hg hlayout w hthreshold severity
  refine ⟨result, hresult, fun n hn ↦ ?_⟩
  obtain ⟨layout', hlayout', hmeasure⟩ := measureDepth_eq_ok hresult
  obtain rfl : layout = layout' := Except.ok.inj (hlayout.symm.trans hlayout')
  have hmem : n.id ∈ g.readyOrder := hlegal.mem_readyOrder hg (mem_ids_of_mem_nodes hn)
  rw [Depth.classes_of_measure hmeasure, harranges.order]
  obtain ⟨reach, hreach, hiff⟩ := Depth.exists_lookup_classes hg
    (fun _ ↦ mem_ids_of_mem_readyOrder hg)
    (fun _ _ _ horder _ ↦ mem_later_of_mem_consumers hg hlegal horder) n.id hmem
  exact ⟨reach, hreach, Reach.mem_names_iff.trans (hiff .feedbackToState),
    Reach.mem_names_iff.trans (hiff .feedforward)⟩

/-- A sum whose value is stored, while an output shows what has been stored. -/
def shownStore : Graph :=
  .ofParts [⟨.input none none none none, 0⟩, ⟨.const 1 none, 1⟩, ⟨.binary .add 0 1 none, 2⟩,
    ⟨.regWrite (.str "sum") 2 none, 3⟩, ⟨.output 3 none none, 4⟩]
    [⟨"sum", 0, none, false⟩]

/-- The write is consumed by the output, so it leads outside as well as to state, and the output
leads to state nowhere. -/
theorem shownStore_classes : ∃ result, shownStore.measureDepth .default 0 .info = .ok result ∧
    result.classes.lookup 3 = some ⟨true, true⟩ ∧ result.classes.lookup 4 = some ⟨false, true⟩ ∧
    (∃ t ∈ shownStore.nodes, t.kind = .output ∧ Digraph.Reaches shownStore.consumers 3 t.id) ∧
    ¬ ∃ t ∈ shownStore.nodes, t.kind = .regWrite ∧ Digraph.Reaches shownStore.consumers 4 t.id := by
  obtain ⟨layout, hlayout⟩ :=
    Outcome.exists_of_isOk (show shownStore.layout.isOk = true by decide +kernel)
  obtain ⟨result, hresult, hall⟩ := classes_are_reached_terminals (g := shownStore)
    (built_of_nodup (by decide) (by decide)) hlayout .default le_rfl .info
  obtain ⟨result', hresult', hlookup⟩ := Outcome.exists_of_any
    (show (shownStore.measureDepth .default 0 .info).toOption.any
      (fun r ↦ decide (r.classes.lookup 3 = some ⟨true, true⟩ ∧
        r.classes.lookup 4 = some ⟨false, true⟩)) = true by decide +kernel)
  cases hresult.symm.trans hresult'
  obtain ⟨hwrite, hshown⟩ := of_decide_eq_true hlookup
  obtain ⟨reach₃, hreach₃, -, houtside⟩ := hall ⟨.regWrite (.str "sum") 2 none, 3⟩
    (by simp [shownStore])
  obtain ⟨reach₄, hreach₄, hstate, -⟩ := hall ⟨.output 3 none none, 4⟩ (by simp [shownStore])
  obtain rfl := Option.some_inj.mp (hreach₃.symm.trans hwrite)
  obtain rfl := Option.some_inj.mp (hreach₄.symm.trans hshown)
  exact ⟨result, hresult, hwrite, hshown, houtside.mp (by decide), fun h ↦
    absurd (hstate.mpr h) (by decide)⟩

end Graph

end Datapath
