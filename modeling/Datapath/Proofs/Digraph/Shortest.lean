import Datapath.Proofs.Digraph.Path
import Mathlib.Data.List.Chain

/-!
# What a search finds is shortest

The queue of a breadth-first search spans two layers: first the paths of some number of steps, then
those of one step more. A vertex within that number of steps from the source waits in the first
layer, or has failed the goal and had all its successors met. When the first layer is used up, its
successors are exactly what the second layer brings in, and the second layer becomes the first.

So the first path that meets the goal is found in the layer of its own length, after everything
closer to the source has failed.
-/

namespace Datapath.Digraph

open Relation

variable {α : Type} {successors : α → List α} {goal : α → Bool} {source : α}

/-! ## Paths and cycles -/

/-- A path from a source, last vertex first. -/
structure PathFrom (successors : α → List α) (source : α) (path : List α) : Prop where
  /-- Each vertex is a successor of the one after it in the list. -/
  linked : path.IsChain fun a b ↦ a ∈ successors b
  /-- The path starts at the source. -/
  starts : path.getLast? = some source

/-- A cycle through a vertex, against the direction of the successor function. -/
structure CycleThrough (successors : α → List α) (start : α) (cycle : List α) : Prop where
  /-- Each vertex is a successor of the next one. -/
  linked : cycle.IsChain fun a b ↦ a ∈ successors b
  first : cycle.head? = some start
  last : cycle.getLast? = some start
  /-- The cycle has a step. -/
  proper : 2 ≤ cycle.length

namespace PathFrom

variable {u w : α} {path : List α}

theorem cons_cons_iff : PathFrom successors source (w :: u :: path) ↔
    w ∈ successors u ∧ PathFrom successors source (u :: path) := by
  constructor
  · rintro ⟨hlinked, hstarts⟩
    rw [List.isChain_cons_cons] at hlinked
    exact ⟨hlinked.1, hlinked.2, by rwa [List.getLast?_cons_cons] at hstarts⟩
  · rintro ⟨hw, hlinked, hstarts⟩
    exact ⟨List.isChain_cons_cons.mpr ⟨hw, hlinked⟩, by rwa [List.getLast?_cons_cons]⟩

theorem singleton_iff : PathFrom successors source [u] ↔ u = source := by
  constructor
  · rintro ⟨-, hstarts⟩
    exact Option.some_inj.mp hstarts
  · rintro rfl
    exact ⟨List.isChain_singleton _, rfl⟩

theorem reaches (h : PathFrom successors source (u :: path)) : Reaches successors source u := by
  induction path generalizing u with
  | nil =>
    rw [singleton_iff.mp h]
  | cons v path ih =>
    obtain ⟨hu, hpath⟩ := cons_cons_iff.mp h
    exact (ih hpath).tail hu

end PathFrom

/-- A cycle is a path to a vertex from which one step leads back. -/
theorem cycleThrough_iff {start : α} {cycle : List α} : CycleThrough successors start cycle ↔
    ∃ u path, cycle = start :: u :: path ∧ start ∈ successors u ∧
      PathFrom successors start (u :: path) := by
  constructor
  · rintro ⟨hlinked, hfirst, hlast, hproper⟩
    rcases cycle with _ | ⟨a, _ | ⟨u, path⟩⟩
    · simp at hproper
    · simp at hproper
    · obtain rfl : a = start := Option.some_inj.mp hfirst
      obtain ⟨ha, hpath⟩ := PathFrom.cons_cons_iff.mp ⟨hlinked, hlast⟩
      exact ⟨u, path, rfl, ha, hpath⟩
  · rintro ⟨u, path, rfl, hstart, hpath⟩
    obtain ⟨hlinked, hlast⟩ := PathFrom.cons_cons_iff.mpr ⟨hstart, hpath⟩
    exact ⟨hlinked, rfl, hlast, by simp⟩

/-! ## Layers -/

/-- The queue holds two layers of paths, the first of which takes some number of steps. -/
structure Wavefront (successors : α → List α) (goal : α → Bool) (source : α) (steps : Nat)
    (near far : List (List α)) (seen : List α) : Prop extends
    Frontier successors goal (near ++ far) seen where
  /-- The queue holds paths from the source without repetition, through vertices that were met. -/
  queued : ∀ path ∈ near ++ far,
    PathFrom successors source path ∧ path.Nodup ∧ ∀ x ∈ path, x ∈ seen
  /-- The paths of the first layer. -/
  near_length : ∀ path ∈ near, path.length = steps + 1
  /-- The paths of the second layer. -/
  far_length : ∀ path ∈ far, path.length = steps + 2
  /-- What is closer than the first layer has failed. -/
  failed : ∀ x path, PathFrom successors source (x :: path) → path.length < steps → goal x = false
  /-- What is no further than the first layer waits in it, or has been expanded. -/
  within : ∀ x path, PathFrom successors source (x :: path) → path.length ≤ steps →
    (∃ path ∈ near, path.head? = some x) ∨ (goal x = false ∧ ∀ w ∈ successors x, w ∈ seen)

namespace Wavefront

variable {steps : Nat} {near far : List (List α)} {seen path : List α} {u : α}

theorem start (successors : α → List α) (goal : α → Bool) (source : α) :
    Wavefront successors goal source 0 [[source]] [] [source] where
  ne_nil := by simp
  expanded := by simp
  queued := by simp [PathFrom.singleton_iff]
  near_length := by simp
  far_length := by simp
  failed := by simp
  within := by
    intro x path hpath hlength
    rw [List.eq_nil_of_length_eq_zero (Nat.le_zero.mp hlength), PathFrom.singleton_iff] at hpath
    exact Or.inl ⟨[source], by simp, by simp [hpath]⟩

/-- The first layer is used up, and the second takes its place. -/
theorem turn (h : Wavefront successors goal source steps [] far seen) :
    Wavefront successors goal source (steps + 1) far [] seen := by
  have hclosed : ∀ x path, PathFrom successors source (x :: path) → path.length ≤ steps →
      goal x = false ∧ ∀ w ∈ successors x, w ∈ seen := by
    intro x path hpath hlength
    rcases h.within x path hpath hlength with ⟨p, hp, -⟩ | hx
    · exact absurd hp List.not_mem_nil
    · exact hx
  refine ⟨?_, ?_, h.far_length, by simp, ?_, ?_⟩
  · rw [List.append_nil]
    exact h.toFrontier
  · rw [List.append_nil]
    exact h.queued
  · intro x path hpath hlength
    exact (hclosed x path hpath (Nat.lt_succ_iff.mp hlength)).1
  · intro x path hpath hlength
    rcases path with _ | ⟨v, path⟩
    · exact Or.inr (hclosed x [] hpath (Nat.zero_le _))
    · -- one step further than the layer that is used up
      obtain ⟨hx, hpath⟩ := PathFrom.cons_cons_iff.mp hpath
      rw [List.length_cons, Nat.add_le_add_iff_right] at hlength
      exact h.expanded x ((hclosed v path hpath hlength).2 x hx)

/-- The first path of the queue is taken off, and its extensions go to the second layer. -/
theorem step [DecidableEq α]
    (h : Wavefront successors goal source steps ((u :: path) :: near) far seen)
    (hu : goal u = false) :
    Wavefront successors goal source steps near
      (far ++ (fresh seen (successors u)).map (· :: u :: path))
      (fresh seen (successors u) ++ seen) := by
  obtain ⟨hpath, hnodup, hseen⟩ := h.queued (u :: path) (by simp)
  have hlength := h.near_length (u :: path) (by simp)
  refine ⟨?_, ?_, fun p hp ↦ h.near_length p (List.mem_cons_of_mem _ hp), ?_, h.failed, ?_⟩
  · rw [← List.append_assoc]
    exact h.toFrontier.step hu
  · intro p hp
    rw [← List.append_assoc, List.mem_append, List.mem_map] at hp
    rcases hp with hp | ⟨w, hw, rfl⟩
    · obtain ⟨hp, hpnodup, hpseen⟩ := h.queued p (List.mem_cons_of_mem _ hp)
      exact ⟨hp, hpnodup, fun x hx ↦ List.mem_append_right _ (hpseen x hx)⟩
    · obtain ⟨hsucc, hnew⟩ := mem_fresh.mp hw
      refine ⟨PathFrom.cons_cons_iff.mpr ⟨hsucc, hpath⟩,
        List.nodup_cons.mpr ⟨fun hmem ↦ hnew (hseen w hmem), hnodup⟩, ?_⟩
      rw [List.forall_mem_cons]
      exact ⟨List.mem_append_left _ hw, fun x hx ↦ List.mem_append_right _ (hseen x hx)⟩
  · intro p hp
    rw [List.mem_append, List.mem_map] at hp
    rcases hp with hp | ⟨w, -, rfl⟩
    · exact h.far_length p hp
    · rw [List.length_cons, hlength]
  · intro x walk hwalk hsteps
    rcases h.within x walk hwalk hsteps with ⟨p, hp, hhead⟩ | ⟨hgoal, hsucc⟩
    · rcases List.mem_cons.mp hp with rfl | hp
      · obtain rfl : u = x := Option.some_inj.mp hhead
        refine Or.inr ⟨hu, fun w hw ↦ ?_⟩
        by_cases hmet : w ∈ seen
        · exact List.mem_append_right _ hmet
        · exact List.mem_append_left _ (mem_fresh.mpr ⟨hw, hmet⟩)
      · exact Or.inl ⟨p, hp, hhead⟩
    · exact Or.inr ⟨hgoal, fun w hw ↦ List.mem_append_right _ (hsucc w hw)⟩

private theorem exists_near (h : Wavefront successors goal source steps near far seen)
    (hne : near ++ far ≠ []) : ∃ steps' path near' far',
      Wavefront successors goal source steps' (path :: near') far' seen ∧
        near ++ far = path :: near' ++ far' := by
  rcases near with _ | ⟨path, near⟩
  · rcases far with _ | ⟨path, far⟩
    · exact absurd rfl hne
    · exact ⟨steps + 1, path, far, [], h.turn, by simp⟩
  · exact ⟨steps, path, near, far, h, rfl⟩

end Wavefront

/-! ## The result -/

/-- **A search finds a shortest path**, and one without repetition. -/
theorem search_eq_some [DecidableEq α] {found : List α} (fuel : Nat) : ∀ (steps : Nat)
    (near far : List (List α)) (seen : List α),
    Wavefront successors goal source steps near far seen →
    search successors goal fuel (near ++ far) seen = some found →
    ∃ u path, found = u :: path ∧ goal u = true ∧ PathFrom successors source (u :: path) ∧
      (u :: path).Nodup ∧ ∀ x walk, PathFrom successors source (x :: walk) → goal x = true →
        path.length ≤ walk.length := by
  induction fuel with
  | zero =>
    intro steps near far seen _ hfound
    cases hfound
  | succ fuel ih =>
    intro steps near far seen h hfound
    by_cases hne : near ++ far = []
    · rw [hne] at hfound
      cases hfound
    · obtain ⟨steps, front, near, far, h, heq⟩ := h.exists_near hne
      obtain ⟨hfront, hnodup, -⟩ := h.queued front (by simp)
      have hlength := h.near_length front (by simp)
      rcases front with _ | ⟨u, path⟩
      · simp at hlength
      · rw [heq, List.cons_append, search] at hfound
        by_cases hu : goal u = true
        · rw [if_pos hu, Option.some_inj] at hfound
          refine ⟨u, path, hfound.symm, hu, hfront, hnodup, fun x walk hwalk hx ↦ ?_⟩
          by_contra hshorter
          rw [List.length_cons, Nat.add_right_cancel_iff] at hlength
          rw [h.failed x walk hwalk (by omega)] at hx
          cases hx
        · rw [if_neg hu] at hfound
          dsimp only at hfound
          rw [List.append_assoc] at hfound
          exact ih steps _ _ _ (h.step (Bool.eq_false_iff.mpr hu)) hfound

theorem shortestPath_eq_some [DecidableEq α] {fuel : Nat} {target : α} {path : List α}
    (h : shortestPath fuel successors source target = some path) :
    path.IsChain (fun a b ↦ b ∈ successors a) ∧ path.head? = some source ∧
      path.getLast? = some target := by
  obtain ⟨n, hfound⟩ := exists_search_of_shortestPath h
  obtain ⟨u, walk, hwalk, hu, ⟨hlinked, hstarts⟩, -⟩ :=
    search_eq_some n 0 [[source]] [] [source] (Wavefront.start _ _ _) hfound
  rw [List.reverse_eq_iff] at hwalk
  subst hwalk
  refine ⟨List.isChain_reverse.mpr hlinked, ?_, ?_⟩
  · rw [List.head?_reverse, hstarts]
  · rw [List.getLast?_reverse, List.head?_cons, of_decide_eq_true hu]

theorem exists_of_mem_chain {path : List α} (hlinked : path.IsChain fun a b ↦ b ∈ successors a)
    (hfirst : path.head? = some source) {x : α} (hx : x ∈ path) :
    x = source ∨ ∃ a, x ∈ successors a := by
  induction path generalizing source with
  | nil => cases hx
  | cons a path ih =>
    obtain rfl : a = source := Option.some_inj.mp hfirst
    rcases List.mem_cons.mp hx with rfl | hx
    · exact Or.inl rfl
    · rcases path with _ | ⟨b, path⟩
      · cases hx
      · rw [List.isChain_cons_cons] at hlinked
        rcases ih hlinked.2 rfl hx with rfl | hsucc
        · exact Or.inr ⟨a, hlinked.1⟩
        · exact Or.inr hsucc

theorem CycleThrough.exists_of_mem {start : α} {cycle : List α}
    (h : CycleThrough successors start cycle) {x : α} (hx : x ∈ cycle) : ∃ a, x ∈ successors a := by
  obtain ⟨u, path, -, hu, -⟩ := cycleThrough_iff.mp h
  rcases exists_of_mem_chain (List.isChain_reverse.mpr h.linked)
    (List.head?_reverse.trans h.last) (List.mem_reverse.mpr hx) with rfl | hsucc
  · exact ⟨u, hu⟩
  · exact hsucc

/-- The cycle that is found is a shortest one, and visits no vertex twice on its way. -/
theorem shortestCycle_eq_some [DecidableEq α] {fuel : Nat} {start : α} {cycle : List α}
    (h : shortestCycle fuel successors start = some cycle) :
    CycleThrough successors start cycle ∧ cycle.tail.Nodup ∧
      ∀ other, CycleThrough successors start other → cycle.length ≤ other.length := by
  rw [shortestCycle_eq_search] at h
  obtain ⟨found, hfound, rfl⟩ := Option.map_eq_some_iff.mp h
  obtain ⟨u, path, rfl, hu, hpath, hnodup, hshortest⟩ :=
    search_eq_some fuel 0 [[start]] [] [start] (Wavefront.start _ _ _) hfound
  refine ⟨cycleThrough_iff.mpr ⟨u, path, rfl, of_decide_eq_true hu, hpath⟩, hnodup, ?_⟩
  rintro other hother
  obtain ⟨x, walk, rfl, hx, hwalk⟩ := cycleThrough_iff.mp hother
  have hle := hshortest x walk hwalk (decide_eq_true hx)
  simpa using hle

/-! ## Cycles inside a component -/

section Component

variable [DecidableEq α] {vertices c : List α} {components : List (List α)} {start : α}

/-- A path that can be continued to its source stays in the component of the source. -/
theorem PathFrom.inside (h : Decomposes successors vertices components) (hc : c ∈ components)
    (hstart : start ∈ c) {u : α} {path : List α} (hpath : PathFrom successors start (u :: path))
    (hback : Reaches successors u start) :
    PathFrom (fun v ↦ (successors v).filter (c.contains ·)) start (u :: path) := by
  induction path generalizing u with
  | nil => rwa [singleton_iff] at hpath ⊢
  | cons v path ih =>
    have hu : u ∈ c := h.mem_of_reaches hc hstart hpath.reaches hback
    obtain ⟨hsucc, hpath⟩ := cons_cons_iff.mp hpath
    exact cons_cons_iff.mpr ⟨List.mem_filter.mpr ⟨hsucc, List.contains_iff_mem.mpr hu⟩,
      ih hpath (hback.head hsucc)⟩

/-- The cycles through a vertex are those inside its component. -/
theorem cycleThrough_inside_iff (h : Decomposes successors vertices components)
    (hc : c ∈ components) (hstart : start ∈ c) {cycle : List α} :
    CycleThrough (fun v ↦ (successors v).filter (c.contains ·)) start cycle ↔
      CycleThrough successors start cycle := by
  constructor
  · rintro ⟨hlinked, hfirst, hlast, hproper⟩
    exact ⟨hlinked.imp fun a b hab ↦ (List.mem_filter.mp hab).1, hfirst, hlast, hproper⟩
  · intro hcycle
    obtain ⟨u, path, rfl, hu, hpath⟩ := cycleThrough_iff.mp hcycle
    have hinside := List.mem_filter.mpr ⟨hu, List.contains_iff_mem.mpr hstart⟩
    exact cycleThrough_iff.mpr
      ⟨u, path, rfl, hinside, hpath.inside h hc hstart (ReflTransGen.single hu)⟩

end Component

end Datapath.Digraph
