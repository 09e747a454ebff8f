import Datapath.Proofs.Digraph.Component
import Mathlib.Data.Set.Card

/-!
# Components over any finite reach

The search has a bound on its rounds, so that it is defined for every successor function. This
module shows that the bound is no more than that: any number from the count of the reachable
vertices on gives the same components, and they are the strongly connected ones, in reverse
topological order. Nothing is asked of the successor function but that finitely many vertices can be
reached.

## Fuel

A visit spends fuel when it descends, and it descends only into vertices that have not been entered.
The fuel left is therefore never less than the number of vertices that are still to be entered, and
a visit with more fuel than that never notices. The argument is about the vertices entered alone and
needs none of what the search means by them.
-/

namespace Datapath.Digraph

open Relation

variable {α : Type} {successors : α → List α} {vertices : List α} {U : Finset α} {v w : α}
  {fuel bound : Nat}

/-- The vertices that some vertices lead to. -/
def reachable (successors : α → List α) (vertices : List α) : Set α :=
  {x | ∃ v ∈ vertices, Reaches successors v x}

theorem mem_reachable_of_mem (hv : v ∈ vertices) : v ∈ reachable successors vertices :=
  ⟨v, hv, ReflTransGen.refl⟩

private theorem mem_reachable_of_edge (hv : v ∈ reachable successors vertices)
    (hw : w ∈ successors v) : w ∈ reachable successors vertices := by
  obtain ⟨u, hu, huv⟩ := hv
  exact ⟨u, hu, huv.tail hw⟩

private theorem reachable_subset (hclosed : ∀ v ∈ U, ∀ w ∈ successors v, w ∈ U)
    (hvertices : ∀ v ∈ vertices, v ∈ U) : reachable successors vertices ⊆ U := by
  rintro x ⟨v, hv, hvx⟩
  induction hvx with
  | refl => exact hvertices v hv
  | tail _ hw ih => exact hclosed _ ih _ hw

namespace Decomposes

variable {components : List (List α)}

/-- A component holds all vertices that a vertex of it reaches and is reached from, and no other. -/
theorem exists_mem_iff (h : Decomposes successors vertices components)
    (hv : v ∈ reachable successors vertices) :
    (∃ c ∈ components, v ∈ c ∧ w ∈ c) ↔ Reaches successors v w ∧ Reaches successors w v := by
  constructor
  · rintro ⟨c, hc, hvc, hwc⟩
    exact ⟨h.strong c hc v hvc w hwc, h.strong c hc w hwc v hvc⟩
  · rintro ⟨hvw, hwv⟩
    obtain ⟨c, hc, hvc⟩ := List.mem_flatten.mp ((h.mem_iff v).mpr hv)
    exact ⟨c, hc, hvc, h.mem_of_reaches hc hvc hvw hwv⟩

theorem pairwise (h : Decomposes successors vertices components) :
    components.Pairwise fun earlier later ↦ ∀ v ∈ earlier, ∀ w ∈ successors v, w ∉ later := by
  refine List.pairwise_iff_forall_sublist.mpr fun {c d} hsub v hv w hw hwd ↦ ?_
  obtain ⟨front, back, rfl, hc, hd⟩ := List.cons_sublist_iff.mp hsub
  obtain ⟨before, between, rfl⟩ := List.append_of_mem hc
  obtain ⟨between', after, rfl⟩ := List.append_of_mem (List.singleton_sublist.mp hd)
  have hnodup := h.nodup
  -- the edge leads into the component or before it, and the later component is disjoint from both
  have hclosed := h.closed before c (between ++ (between' ++ d :: after)) (by simp) v hv w hw
  simp only [List.flatten_append, List.flatten_cons, List.append_assoc, List.nodup_append,
    List.mem_append] at hnodup
  rcases hclosed with hwc | hwbefore
  · exact hnodup.2.1.2.2 w hwc w (by tauto) rfl
  · exact hnodup.2.2 w hwbefore w (by tauto) rfl

end Decomposes

variable [DecidableEq α]

namespace Search

variable {s s' : Search α}

/-! ## Fuel -/

private theorem foldl_scan_succ
    (hvisit : ∀ (s : Search α) (w : α), w ∈ U → w ∉ s.entered →
      (U \ s.entered.toFinset).card ≤ fuel →
      visit successors (fuel + 1) w s = visit successors fuel w s)
    (ws : List α) (hws : ∀ w ∈ ws, w ∈ U) (r : Search α × Nat)
    (hcard : (U \ r.1.entered.toFinset).card ≤ fuel) :
    ws.foldl (scan successors (fuel + 1)) r = ws.foldl (scan successors fuel) r := by
  induction ws generalizing r with
  | nil => rfl
  | cons w ws ih =>
    rw [List.forall_mem_cons] at hws
    have hscan : scan successors (fuel + 1) r w = scan successors fuel r w := by
      rw [scan, scan]
      by_cases hw : w ∈ r.1.entered
      · rw [if_pos hw, if_pos hw]
      · rw [if_neg hw, if_neg hw, hvisit r.1 w hws.1 hw hcard]
    rw [List.foldl_cons, List.foldl_cons, hscan]
    exact ih hws.2 _ ((card_sdiff_le (entered_scan successors _ r w).subset).trans hcard)

/-- Fuel beyond the number of vertices left makes no difference. -/
theorem visit_fuel_succ (hclosed : ∀ x ∈ U, ∀ w ∈ successors x, w ∈ U) (hvU : v ∈ U)
    (hv : v ∉ s.entered) (hcard : (U \ s.entered.toFinset).card ≤ fuel) :
    visit successors (fuel + 1) v s = visit successors fuel v s := by
  induction fuel generalizing v s with
  | zero =>
    have hleft := card_sdiff_enter hvU hv
    omega
  | succ fuel ih =>
    have hleft := card_sdiff_enter hvU hv
    rw [visit_succ, visit_succ, foldl_scan_succ (fun s w hwU hw ↦ ih hwU hw) (successors v)
      (hclosed v hvU) (s.enter v, s.entered.length) (by dsimp only; omega)]

private theorem descend_succ (hclosed : ∀ x ∈ U, ∀ w ∈ successors x, w ∈ U) (hvU : v ∈ U)
    (hbound : U.card ≤ bound) :
    s.descend (bound + 1) successors v = s.descend bound successors v := by
  rw [descend, descend]
  split_ifs with hv
  · rfl
  · rw [visit_fuel_succ hclosed hvU hv
      ((Finset.card_le_card Finset.sdiff_subset).trans hbound)]

end Search

/-- The components do not depend on the bound, once it is the number of vertices that can be met. -/
theorem components_bound_eq (hclosed : ∀ x ∈ U, ∀ w ∈ successors x, w ∈ U)
    (hvertices : ∀ v ∈ vertices, v ∈ U) (hbound : U.card ≤ bound) :
    components bound successors vertices = components U.card successors vertices := by
  induction bound, hbound using Nat.le_induction with
  | base => rfl
  | succ bound hbound ih =>
    rw [← ih, components_eq_descend hclosed hvertices hbound,
      components_eq_descend hclosed hvertices (Nat.le_succ_of_le hbound)]
    rw [List.foldl_ext _ _ Search.start fun s v hv ↦
      Search.descend_succ hclosed (hvertices v hv) hbound]

/-! ## The components -/

/-- **The search computes the strongly connected components.** Let finitely many vertices be
reachable, and the bound be at least their number. Then the components hold every reachable vertex
once and nothing else, two vertices share a component exactly when each reaches the other, and an
edge between components leads to the earlier one. The bound itself makes no difference. -/
theorem components_correct (hfinite : (reachable successors vertices).Finite)
    (hbound : (reachable successors vertices).ncard ≤ bound) :
    (components bound successors vertices).flatten.Nodup ∧
    (∀ c ∈ components bound successors vertices, c ≠ []) ∧
    (∀ v, v ∈ (components bound successors vertices).flatten ↔ v ∈ reachable successors vertices) ∧
    (∀ v ∈ reachable successors vertices, ∀ w,
      (∃ c ∈ components bound successors vertices, v ∈ c ∧ w ∈ c) ↔
        Reaches successors v w ∧ Reaches successors w v) ∧
    ((components bound successors vertices).Pairwise fun earlier later ↦
      ∀ v ∈ earlier, ∀ w ∈ successors v, w ∉ later) ∧
    components bound successors vertices =
      components (reachable successors vertices).ncard successors vertices := by
  rw [Set.ncard_eq_toFinset_card _ hfinite] at hbound ⊢
  have hclosed : ∀ v ∈ hfinite.toFinset, ∀ w ∈ successors v, w ∈ hfinite.toFinset := by
    intro v hv w hw
    rw [Set.Finite.mem_toFinset] at hv ⊢
    exact mem_reachable_of_edge hv hw
  have hvertices : ∀ v ∈ vertices, v ∈ hfinite.toFinset := fun v hv ↦
    hfinite.mem_toFinset.mpr (mem_reachable_of_mem hv)
  have h := components_decompose hclosed hvertices hbound
  exact ⟨h.nodup, h.ne_nil, h.mem_iff, fun v hv w ↦ h.exists_mem_iff hv, h.pairwise,
    components_bound_eq hclosed hvertices hbound⟩

/-- A graph with a cycle, from which two other vertices hang. -/
def lasso (v : Nat) : List Nat := ([(0, [1, 1, 2]), (1, [0]), (2, [3])].lookup v).getD []

/-- The cycle is one component, and what hangs from it comes first. -/
theorem components_lasso : components 4 lasso [1, 0, 1] = [[3], [2], [0, 1]] ∧
    (Reaches lasso 0 1 ∧ Reaches lasso 1 0) ∧ ¬ (Reaches lasso 0 2 ∧ Reaches lasso 2 0) := by
  have hreach : reachable lasso [1, 0, 1] ⊆ ({0, 1, 2, 3} : Finset Nat) :=
    reachable_subset (by decide) (by decide)
  have hfinite := (Finset.finite_toSet _).subset hreach
  have hcard : (reachable lasso [1, 0, 1]).ncard ≤ 4 :=
    (Set.ncard_le_ncard hreach).trans_eq (Set.ncard_coe_finset _)
  obtain ⟨-, -, -, hsame, -, -⟩ := components_correct hfinite hcard
  have hzero : 0 ∈ reachable lasso [1, 0, 1] := mem_reachable_of_mem (by decide)
  refine ⟨by decide, (hsame 0 hzero 1).mp (by decide), fun h ↦ ?_⟩
  exact absurd ((hsame 0 hzero 2).mpr h) (by decide)

end Datapath.Digraph
