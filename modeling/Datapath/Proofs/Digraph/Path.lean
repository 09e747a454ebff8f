import Datapath.Proofs.Digraph.Component
import Datapath.Proofs.Digraph.Parents
import Mathlib.Data.Fintype.EquivFin
import Mathlib.Data.Fintype.Sets
import Mathlib.Order.WellFounded

/-!
# Searches that find what is there

A breadth-first search with enough fuel finds a vertex that meets the goal whenever one can be
reached. Every vertex met is either still in the queue or has failed the goal and had all its
successors met; when the queue is empty, nothing that can be reached meets the goal. Each vertex
leaves the queue once, so the vertices that have not been met and the paths in the queue together
bound the steps that are left.

The last section is about cycles: a finite set in which every vertex has a successor holds one.
-/

namespace Datapath.Digraph

open Relation

variable {α : Type} {successors : α → List α} {goal : α → Bool}

/-! ## The queue -/

/-- What holds while a search runs. -/
structure Frontier (successors : α → List α) (goal : α → Bool) (queue : List (List α))
    (seen : List α) : Prop where
  /-- The queue holds paths. -/
  ne_nil : ∀ path ∈ queue, path ≠ []
  /-- A vertex that has been met is waiting, or has failed the goal and been expanded. -/
  expanded : ∀ x ∈ seen, (∃ path ∈ queue, path.head? = some x) ∨
    (goal x = false ∧ ∀ w ∈ successors x, w ∈ seen)

namespace Frontier

variable {queue : List (List α)} {seen path : List α} {u : α}

/-- When the queue is empty, nothing that can be reached meets the goal. -/
theorem goal_eq_false (h : Frontier successors goal [] seen) {x y : α} (hx : x ∈ seen)
    (hxy : Reaches successors x y) : goal y = false := by
  have hclosed : ∀ z ∈ seen, goal z = false ∧ ∀ w ∈ successors z, w ∈ seen := by
    intro z hz
    rcases h.expanded z hz with ⟨path, hpath, -⟩ | hz
    · exact absurd hpath List.not_mem_nil
    · exact hz
  have hy : y ∈ seen := by
    induction hxy with
    | refl => exact hx
    | tail _ hw ih => exact (hclosed _ ih).2 _ hw
  exact (hclosed y hy).1

/-- The first path is taken off the queue, and its extensions go to the end. -/
theorem step [DecidableEq α] (h : Frontier successors goal ((u :: path) :: queue) seen)
    (hu : goal u = false) :
    Frontier successors goal
      (queue ++ (fresh seen (successors u)).map (· :: u :: path))
      (fresh seen (successors u) ++ seen) where
  ne_nil := by
    intro p hp
    rcases List.mem_append.mp hp with hp | hp
    · exact h.ne_nil p (List.mem_cons_of_mem _ hp)
    · obtain ⟨w, -, rfl⟩ := List.mem_map.mp hp
      exact List.cons_ne_nil _ _
  expanded := by
    intro x hx
    rcases List.mem_append.mp hx with hx | hx
    · exact Or.inl ⟨x :: u :: path,
        List.mem_append_right _ (List.mem_map_of_mem hx), rfl⟩
    · rcases h.expanded x hx with ⟨p, hp, hhead⟩ | ⟨hgoal, hsucc⟩
      · rcases List.mem_cons.mp hp with rfl | hp
        · rw [List.head?_cons, Option.some_inj] at hhead
          subst hhead
          refine Or.inr ⟨hu, fun w hw ↦ ?_⟩
          by_cases hseen : w ∈ seen
          · exact List.mem_append_right _ hseen
          · exact List.mem_append_left _ (mem_fresh.mpr ⟨hw, hseen⟩)
        · exact Or.inl ⟨p, List.mem_append_left _ hp, hhead⟩
      · exact Or.inr ⟨hgoal, fun w hw ↦ List.mem_append_right _ (hsucc w hw)⟩

end Frontier

/-! ## Enough fuel -/

section Fuel

variable [DecidableEq α] {U : Finset α}

private theorem card_sdiff_fresh (hclosed : ∀ x ∈ U, ∀ w ∈ successors x, w ∈ U) (seen : List α)
    {u : α} (hu : u ∈ U) :
    (U \ (fresh seen (successors u) ++ seen).toFinset).card + (fresh seen (successors u)).length
      = (U \ seen.toFinset).card := by
  rw [← List.toFinset_card_of_nodup nodup_fresh, ← Finset.card_union_of_disjoint]
  · congr 1
    ext x
    simp only [Finset.mem_union, Finset.mem_sdiff, List.mem_toFinset, List.mem_append, mem_fresh]
    constructor
    · rintro (⟨hx, hnot⟩ | ⟨hx, hseen⟩)
      · exact ⟨hx, fun hmem ↦ hnot (Or.inr hmem)⟩
      · exact ⟨hclosed u hu x hx, hseen⟩
    · rintro ⟨hx, hseen⟩
      by_cases hsucc : x ∈ successors u
      · exact Or.inr ⟨hsucc, hseen⟩
      · exact Or.inl ⟨hx, by tauto⟩
  · rw [Finset.disjoint_left]
    intro x hx hmem
    rw [Finset.mem_sdiff, List.mem_toFinset, List.mem_append] at hx
    exact hx.2 (Or.inl (List.mem_toFinset.mp hmem))

/-- **A search with enough fuel finds what can be reached.** -/
theorem search_isSome (hclosed : ∀ x ∈ U, ∀ w ∈ successors x, w ∈ U) {x y : α}
    (hxy : Reaches successors x y) (hgoal : goal y = true) :
    ∀ (fuel : Nat) (queue : List (List α)) (seen : List α), x ∈ seen → (∀ z ∈ seen, z ∈ U) →
      (∀ path ∈ queue, ∀ z ∈ path, z ∈ U) → Frontier successors goal queue seen →
      (U \ seen.toFinset).card + queue.length ≤ fuel →
      (search successors goal fuel queue seen).isSome := by
  intro fuel
  induction fuel with
  | zero =>
    intro queue seen hx _ _ h hfuel
    have hqueue : queue = [] := List.eq_nil_of_length_eq_zero (by omega)
    subst hqueue
    rw [h.goal_eq_false hx hxy] at hgoal
    cases hgoal
  | succ fuel ih =>
    intro queue seen hx hseen hpaths h hfuel
    match queue, hpaths, h, hfuel with
    | [], _, h, _ =>
      rw [h.goal_eq_false hx hxy] at hgoal
      cases hgoal
    | [] :: queue, _, h, _ => exact absurd rfl (h.ne_nil [] List.mem_cons_self)
    | (u :: path) :: queue, hpaths, h, hfuel =>
      rw [search]
      cases hu : goal u with
      | true => rfl
      | false =>
        have huU : u ∈ U := hpaths _ List.mem_cons_self u List.mem_cons_self
        have hnext : ∀ z ∈ fresh seen (successors u), z ∈ U := fun z hz ↦
          hclosed u huU z (mem_fresh.mp hz).1
        -- a vertex that enters the queue leaves the vertices not met yet
        have hcard := card_sdiff_fresh hclosed seen huU
        refine ih _ _ (List.mem_append_right _ hx) ?_ ?_ (h.step hu) ?_
        · intro z hz
          rcases List.mem_append.mp hz with hz | hz
          · exact hnext z hz
          · exact hseen z hz
        · intro p hp z hz
          rcases List.mem_append.mp hp with hp | hp
          · exact hpaths p (List.mem_cons_of_mem _ hp) z hz
          · obtain ⟨w, hw, rfl⟩ := List.mem_map.mp hp
            rcases List.mem_cons.mp hz with rfl | hz
            · exact hnext z hw
            · exact hpaths _ List.mem_cons_self z hz
        · rw [List.length_append, List.length_map]
          rw [List.length_cons] at hfuel
          omega

theorem search_start_isSome (hclosed : ∀ x ∈ U, ∀ w ∈ successors x, w ∈ U) {x y : α} (hx : x ∈ U)
    (hxy : Reaches successors x y) (hgoal : goal y = true) {fuel : Nat} (hfuel : U.card < fuel) :
    (search successors goal fuel [[x]] [x]).isSome := by
  refine search_isSome hclosed hxy hgoal fuel [[x]] [x] (by simp) (by simpa) (by simpa)
    ⟨by simp, by simp⟩ ?_
  have hle : (U \ [x].toFinset).card ≤ U.card := Finset.card_le_card Finset.sdiff_subset
  rw [List.length_singleton]
  omega

theorem shortestPath_isSome (hclosed : ∀ x ∈ U, ∀ w ∈ successors x, w ∈ U) {source target : α}
    (hsource : source ∈ U) (hreach : Reaches successors source target) {fuel : Nat}
    (hfuel : U.card < fuel) : (shortestPath fuel successors source target).isSome := by
  have hfound : (search successors (· = target) fuel [[source]] [source]).isSome :=
    search_start_isSome hclosed hsource hreach (by simp) hfuel
  obtain ⟨path, hpath⟩ := Option.isSome_iff_exists.mp hfound
  rw [shortestPath_of_search hpath]
  rfl

theorem shortestCycle_isSome (hclosed : ∀ x ∈ U, ∀ w ∈ successors x, w ∈ U) {start u : α}
    (hstart : start ∈ U) (hreach : Reaches successors start u) (hu : start ∈ successors u)
    {fuel : Nat} (hfuel : U.card < fuel) : (shortestCycle fuel successors start).isSome := by
  rw [shortestCycle_eq_search, Option.isSome_map]
  exact search_start_isSome hclosed hstart hreach (by simpa using hu) hfuel

end Fuel

/-! ## Cycles -/

/-- A finite set in which every vertex has a successor holds a cycle. -/
theorem exists_cycle [DecidableEq α] {r : α → α → Prop} {vertices : List α} (hne : vertices ≠ [])
    (hsucc : ∀ x ∈ vertices, ∃ y ∈ vertices, r x y) : ∃ x ∈ vertices, TransGen r x x := by
  by_contra hacyclic
  push Not at hacyclic
  let after : {x // x ∈ vertices} → {x // x ∈ vertices} → Prop := fun a b ↦ TransGen r b.1 a.1
  have htrans : IsTrans _ after := ⟨fun _ _ _ hab hbc ↦ TransGen.trans hbc hab⟩
  have hirrefl : Std.Irrefl after := ⟨fun a h ↦ hacyclic a.1 a.2 h⟩
  obtain ⟨v, hv⟩ := List.exists_mem_of_ne_nil vertices hne
  -- a vertex with nothing after it would have no successor
  obtain ⟨m, -, hmin⟩ := (Finite.wellFounded_of_trans_of_irrefl after).has_min Set.univ
    ⟨⟨v, hv⟩, trivial⟩
  obtain ⟨y, hy, hmy⟩ := hsucc m.1 m.2
  exact hmin ⟨y, hy⟩ trivial (TransGen.single hmy)

end Datapath.Digraph
