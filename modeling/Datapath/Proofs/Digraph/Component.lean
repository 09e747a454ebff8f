import Datapath.Proofs.Digraph.Recursion
import Mathlib.Data.List.Pairwise
import Mathlib.Logic.Relation

/-!
# Strongly connected components are what the search finishes

`Digraph.components` returns the strongly connected components of everything that can be reached,
each after the components it leads to. This is `components_decompose`; the rest of the module
prepares it.

## The invariant

At any moment some vertices are *active*: they have been entered and are still being searched. Every
vertex on the stack leads to an active vertex that was entered no later, and every active vertex
leads to all vertices of the stack that were entered no earlier. Vertices that are not active have
had all their successors entered. Finished components lead only to themselves and to components
finished before.

## What a visit reports

A visit answers with the least number of an open vertex that it saw. The number is either that of
the vertex visited, or that of an open vertex below it which can be reached from it; and no vertex
that the visit leaves on the stack has an edge to an open vertex with a smaller number. When the two
numbers agree, nothing above the vertex leads below it, so the part of the stack above it is closed
under successors apart from what is finished, and it is one component.
-/

namespace Datapath.Digraph

open Relation

variable {α : Type}

/-- A vertex can be reached from another along successors. -/
abbrev Reaches (successors : α → List α) : α → α → Prop :=
  ReflTransGen fun a b ↦ b ∈ successors a

private theorem forall_mem_concat {p : α → Prop} {xs : List α} {x : α} (hxs : ∀ y ∈ xs, p y)
    (hx : p x) : ∀ y ∈ xs ++ [x], p y :=
  List.forall_mem_append.mpr ⟨hxs, List.forall_mem_singleton.mpr hx⟩

/-- Components that lead only to themselves and to the components after them in the list. -/
def Layered (successors : α → List α) : List (List α) → Prop
  | [] => True
  | c :: older =>
    (∀ x ∈ c, ∀ w ∈ successors x, w ∈ c ∨ w ∈ older.flatten) ∧ Layered successors older

namespace Layered

variable {successors : α → List α}

theorem mem_flatten_of_reaches {finished : List (List α)} (h : Layered successors finished)
    {x y : α} (hx : x ∈ finished.flatten) (hxy : Reaches successors x y) :
    y ∈ finished.flatten := by
  have step : ∀ {finished : List (List α)}, Layered successors finished → ∀ {x w : α},
      x ∈ finished.flatten → w ∈ successors x → w ∈ finished.flatten := by
    intro finished
    induction finished with
    | nil => intro _ x w hx _; simp at hx
    | cons c older ih =>
      intro h x w hx hw
      rw [List.flatten_cons, List.mem_append] at hx ⊢
      rcases hx with hx | hx
      · exact h.1 x hx w hw
      · exact Or.inr (ih h.2 hx hw)
  induction hxy with
  | refl => exact hx
  | tail _ hw ih => exact step h ih hw

/-- A component in the middle leads to itself and to what comes after it. -/
theorem of_append {newer older : List (List α)} {c : List α}
    (h : Layered successors (newer ++ c :: older)) :
    ∀ x ∈ c, ∀ w ∈ successors x, w ∈ c ∨ w ∈ older.flatten := by
  induction newer with
  | nil => exact h.1
  | cons d newer ih => exact ih h.2

end Layered

/-- The components of everything that some vertices lead to, each after those it leads to. -/
structure Decomposes (successors : α → List α) (vertices : List α)
    (components : List (List α)) : Prop where
  /-- No vertex stands in two places. -/
  nodup : components.flatten.Nodup
  ne_nil : ∀ c ∈ components, c ≠ []
  /-- The components hold what can be reached, and nothing else. -/
  mem_iff : ∀ x, x ∈ components.flatten ↔ ∃ v ∈ vertices, Reaches successors v x
  /-- The vertices of a component reach each other. -/
  strong : ∀ c ∈ components, ∀ x ∈ c, ∀ y ∈ c, Reaches successors x y
  /-- An edge stays in its component or leads to an earlier one. -/
  closed : ∀ earlier c later, components = earlier ++ c :: later →
    ∀ x ∈ c, ∀ w ∈ successors x, w ∈ c ∨ w ∈ earlier.flatten

namespace Search

variable {successors : α → List α} {active : List α} {v x : α} {s s' : Search α}

variable [DecidableEq α]

/-! ## Numbers -/

theorem number_of_append (new : List α) (h : s'.entered = new ++ s.entered) (hx : x ∈ s.entered) :
    s'.number x = s.number x := by
  rw [number, number, h, List.reverse_append]
  exact List.idxOf_append_of_mem (List.mem_reverse.mpr hx)

theorem number_lt (hx : x ∈ s.entered) : s.number x < s.entered.length := by
  have h := List.idxOf_lt_length_of_mem (List.mem_reverse.mpr hx)
  rwa [List.length_reverse] at h

theorem le_number_of_append (new : List α) (h : s'.entered = new ++ s.entered)
    (hx : x ∉ s.entered) : s.entered.length ≤ s'.number x := by
  rw [number, h, List.reverse_append,
    List.idxOf_append_of_notMem (fun hmem ↦ hx (List.mem_reverse.mp hmem)), List.length_reverse]
  exact Nat.le_add_right _ _

theorem number_enter_of_mem (hx : x ∈ s.entered) : (s.enter v).number x = s.number x :=
  number_of_append [v] rfl hx

/-- Closing takes the part of the stack that ends with the vertex. -/
theorem close_eq {above below : List α} (h : s.stack = above ++ v :: below) (hv : v ∉ above) :
    s.close v =
      { s with stack := below, finished := (above ++ [v]) :: s.finished } := by
  have hidx : s.stack.idxOf v = above.length := by
    rw [h, List.idxOf_append_of_notMem hv, List.idxOf_cons_self, Nat.add_zero]
  have htake : s.stack.take (s.stack.idxOf v + 1) = above ++ [v] := by
    rw [hidx, h, List.append_cons, List.take_left' (by simp)]
  have hdrop : s.stack.drop (above ++ [v]).length = below := by
    rw [h, List.append_cons above v below, List.drop_left]
  rw [close, htake, hdrop]

/-! ## The invariant -/

/-- What holds of the state while some vertices are active. -/
structure Sound (successors : α → List α) (active : List α) (s : Search α) : Prop where
  /-- A vertex is entered once. -/
  nodup : s.entered.Nodup
  /-- A vertex that has been entered is on the stack or in one finished component. -/
  split : s.entered.Perm (s.stack ++ s.finished.flatten)
  /-- Finished components lead to those finished before. -/
  layered : Layered successors s.finished
  /-- The vertices of a finished component reach each other. -/
  strong : ∀ c ∈ s.finished, ∀ x ∈ c, ∀ y ∈ c, Reaches successors x y
  ne_nil : ∀ c ∈ s.finished, c ≠ []
  /-- Active vertices are on the stack. -/
  active_stack : ∀ a ∈ active, a ∈ s.stack
  /-- The successors of vertices that are no longer active have been entered. -/
  expanded : ∀ x ∈ s.entered, x ∉ active → ∀ w ∈ successors x, w ∈ s.entered
  /-- An active vertex leads to what was entered after it and is still on the stack. -/
  leads : ∀ a ∈ active, ∀ y ∈ s.stack, s.number a ≤ s.number y → Reaches successors a y
  /-- A vertex on the stack leads back to an active vertex entered no later. -/
  returns : ∀ y ∈ s.stack, ∃ a ∈ active, s.number a ≤ s.number y ∧ Reaches successors y a

namespace Sound

theorem start : Sound successors [] (Search.start : Search α) where
  nodup := List.nodup_nil
  split := List.Perm.refl _
  layered := trivial
  strong := by simp [Search.start]
  ne_nil := by simp [Search.start]
  active_stack := by simp
  expanded := by simp [Search.start]
  leads := by simp
  returns := by simp [Search.start]

theorem mem_entered_iff (h : s.Sound successors active) :
    x ∈ s.entered ↔ x ∈ s.stack ∨ x ∈ s.finished.flatten := by
  rw [h.split.mem_iff, List.mem_append]

theorem mem_entered_of_mem_stack (h : s.Sound successors active) (hx : x ∈ s.stack) :
    x ∈ s.entered := h.mem_entered_iff.mpr (Or.inl hx)

theorem nodup_split (h : s.Sound successors active) : (s.stack ++ s.finished.flatten).Nodup :=
  h.split.nodup_iff.mp h.nodup

theorem stack_eq_nil (h : s.Sound successors []) : s.stack = [] := by
  rw [List.eq_nil_iff_forall_not_mem]
  intro y hy
  obtain ⟨a, ha, -⟩ := h.returns y hy
  exact List.not_mem_nil ha

theorem enter (h : s.Sound successors active) (hv : v ∉ s.entered)
    (hreach : ∀ a ∈ active, Reaches successors a v) :
    (s.enter v).Sound successors (v :: active) where
  nodup := List.nodup_cons.mpr ⟨hv, h.nodup⟩
  split := h.split.cons v
  layered := h.layered
  strong := h.strong
  ne_nil := h.ne_nil
  active_stack := by
    intro a ha
    rcases List.mem_cons.mp ha with rfl | ha
    · exact List.mem_cons_self
    · exact List.mem_cons_of_mem _ (h.active_stack a ha)
  expanded := by
    intro x hx hxa w hw
    rcases List.mem_cons.mp hx with rfl | hx
    · exact absurd List.mem_cons_self hxa
    · exact List.mem_cons_of_mem _
        (h.expanded x hx (fun hmem ↦ hxa (List.mem_cons_of_mem _ hmem)) w hw)
  leads := by
    intro a ha y hy hle
    rcases List.mem_cons.mp hy with rfl | hy
    · rcases List.mem_cons.mp ha with rfl | ha
      · exact ReflTransGen.refl
      · exact hreach a ha
    · have hye := h.mem_entered_of_mem_stack hy
      rw [number_enter_of_mem hye] at hle
      rcases List.mem_cons.mp ha with rfl | ha
      · -- the new vertex has the greatest number so far
        have h₁ : s.entered.length ≤ (s.enter a).number a := le_number_of_append [a] rfl hv
        have h₂ := number_lt hye
        omega
      · rw [number_enter_of_mem (h.mem_entered_of_mem_stack (h.active_stack a ha))] at hle
        exact h.leads a ha y hy hle
  returns := by
    intro y hy
    rcases List.mem_cons.mp hy with rfl | hy
    · exact ⟨y, List.mem_cons_self, le_refl _, ReflTransGen.refl⟩
    · obtain ⟨a, ha, hle, hreach⟩ := h.returns y hy
      refine ⟨a, List.mem_cons_of_mem _ ha, ?_, hreach⟩
      rw [number_enter_of_mem (h.mem_entered_of_mem_stack hy),
        number_enter_of_mem (h.mem_entered_of_mem_stack (h.active_stack a ha))]
      exact hle

end Sound

/-! ## What a visit leaves -/

/-- What holds when a visit that started in `s` has left `fresh` on the stack and answers
`low`. -/
structure Visited (successors : α → List α) (active : List α) (v : α) (s s' : Search α)
    (low : Nat) (fresh : List α) : Prop where
  sound : s'.Sound successors active
  /-- Only vertices that can be reached have been entered. -/
  entered : ∃ new, s'.entered = new ++ s.entered ∧ ∀ x ∈ new, Reaches successors v x
  mem : v ∈ s'.entered
  stack : s'.stack = fresh ++ s.stack
  /-- What the stack has grown by is new. -/
  fresh_new : ∀ x ∈ fresh, x ∉ s.entered
  /-- A smaller answer is the number of an open vertex that can be reached. -/
  low_reached : low = s.entered.length ∨ ∃ y ∈ s.stack, s.number y = low ∧ Reaches successors v y
  /-- No edge leads from what was left on the stack below the answer. -/
  low_bound : ∀ x ∈ fresh, ∀ w ∈ successors x, w ∈ s.stack → low ≤ s.number w

/-- What holds while a visit that started in `s₀` looks at successors: `fresh` lies above the vertex
on the stack, and the successors in `done` have been looked at. -/
structure Scanned (successors : α → List α) (active : List α) (v : α) (s₀ : Search α)
    (done : List α) (s : Search α) (low : Nat) (fresh : List α) : Prop where
  sound : s.Sound successors (v :: active)
  /-- Only vertices that can be reached have been entered. -/
  entered : ∃ new, s.entered = new ++ v :: s₀.entered ∧ ∀ x ∈ new, Reaches successors v x
  /-- The stack has grown by the vertex and `fresh`. -/
  stack : s.stack = fresh ++ v :: s₀.stack
  /-- What the stack has grown by is new. -/
  fresh_new : ∀ x ∈ fresh, x ∉ s₀.entered
  /-- The number so far is at most that of the vertex. -/
  low_le : low ≤ s₀.entered.length
  /-- A smaller number is that of an open vertex that can be reached. -/
  low_reached : low = s₀.entered.length ∨
    ∃ y ∈ s₀.stack, s₀.number y = low ∧ Reaches successors v y
  /-- No edge leads from what lies above the vertex below the number. -/
  low_bound : ∀ x ∈ fresh, ∀ w ∈ successors x, w ∈ s₀.stack → low ≤ s₀.number w
  /-- The successors looked at have been entered. -/
  done_entered : ∀ w ∈ done, w ∈ s.entered
  /-- None of them lies below the number. -/
  done_bound : ∀ w ∈ done, w ∈ s₀.stack → low ≤ s₀.number w

namespace Scanned

variable {s₀ : Search α} {done fresh : List α} {low : Nat} {w : α}

theorem enter (h : s₀.Sound successors active) (hv : v ∉ s₀.entered)
    (hreach : ∀ a ∈ active, Reaches successors a v) :
    Scanned successors active v s₀ [] (s₀.enter v) s₀.entered.length [] where
  sound := h.enter hv hreach
  entered := ⟨[], rfl, by simp⟩
  stack := rfl
  fresh_new := by simp
  low_le := le_refl _
  low_reached := Or.inl rfl
  low_bound := by simp
  done_entered := by simp
  done_bound := by simp

/-- What has been entered since the visit started, its vertex included. -/
theorem exists_new (h : Scanned successors active v s₀ done s low fresh) :
    ∃ new, s.entered = new ++ s₀.entered ∧ ∀ x ∈ new, Reaches successors v x := by
  obtain ⟨new, hnew, hreach⟩ := h.entered
  refine ⟨new ++ [v], ?_, forall_mem_concat hreach ReflTransGen.refl⟩
  rw [hnew, List.append_cons]

theorem mem_entered (h : Scanned successors active v s₀ done s low fresh) : v ∈ s.entered :=
  h.sound.mem_entered_of_mem_stack (h.sound.active_stack v List.mem_cons_self)

theorem mem_entered_of_mem (h : Scanned successors active v s₀ done s low fresh)
    (hx : x ∈ s₀.entered) : x ∈ s.entered := by
  obtain ⟨new, hnew, -⟩ := h.exists_new
  rw [hnew]
  exact List.mem_append_right _ hx

theorem mem_stack_of_mem (h : Scanned successors active v s₀ done s low fresh)
    (hx : x ∈ s₀.stack) : x ∈ s.stack := by
  rw [h.stack]
  exact List.mem_append_right _ (List.mem_cons_of_mem _ hx)

theorem number_eq (h : Scanned successors active v s₀ done s low fresh) (hx : x ∈ s₀.entered) :
    s.number x = s₀.number x := by
  obtain ⟨new, hnew, -⟩ := h.exists_new
  exact number_of_append new hnew hx

theorem le_number (h : Scanned successors active v s₀ done s low fresh) (hx : x ∉ s₀.entered) :
    s₀.entered.length ≤ s.number x := by
  obtain ⟨new, hnew, -⟩ := h.exists_new
  exact le_number_of_append new hnew hx

private theorem length_lt (h : Scanned successors active v s₀ done s low fresh) :
    s₀.entered.length < s.entered.length := by
  obtain ⟨new, hnew, -⟩ := h.entered
  rw [hnew, List.length_append, List.length_cons]
  omega

theorem mem_stack_cases (h : Scanned successors active v s₀ done s low fresh) (hv : v ∉ s₀.entered)
    (hx : x ∈ s.stack) : x ∈ s₀.stack ∨ x ∉ s₀.entered := by
  rw [h.stack, List.mem_append, List.mem_cons] at hx
  rcases hx with hx | rfl | hx
  · exact Or.inr (h.fresh_new x hx)
  · exact Or.inr hv
  · exact Or.inl hx

theorem step_open (h : Scanned successors active v s₀ done s low fresh)
    (h₀ : s₀.Sound successors active) (hv : v ∉ s₀.entered) (hw : w ∈ successors v)
    (hstack : w ∈ s.stack) :
    Scanned successors active v s₀ (done ++ [w]) s (min low (s.number w)) fresh where
  sound := h.sound
  entered := h.entered
  stack := h.stack
  fresh_new := h.fresh_new
  low_le := le_trans (min_le_left _ _) h.low_le
  low_reached := by
    rcases le_or_gt low (s.number w) with hle | hlt
    · rw [min_eq_left hle]
      exact h.low_reached
    · rw [min_eq_right hlt.le]
      rcases h.mem_stack_cases hv hstack with hmem | hnew
      · refine Or.inr ⟨w, hmem, ?_, ReflTransGen.single hw⟩
        rw [h.number_eq (h₀.mem_entered_of_mem_stack hmem)]
      · have h₁ := h.le_number hnew
        have h₂ := h.low_le
        omega
  low_bound := fun x hx y hy hmem ↦ le_trans (min_le_left _ _) (h.low_bound x hx y hy hmem)
  done_entered := forall_mem_concat h.done_entered (h.sound.mem_entered_of_mem_stack hstack)
  done_bound := by
    refine forall_mem_concat (fun y hy hmem ↦ ?_) fun hmem ↦ ?_
    · exact le_trans (min_le_left _ _) (h.done_bound y hy hmem)
    · rw [← h.number_eq (h₀.mem_entered_of_mem_stack hmem)]
      exact min_le_right _ _

theorem step_finished (h : Scanned successors active v s₀ done s low fresh) (hw : w ∈ s.entered)
    (hstack : w ∉ s.stack) : Scanned successors active v s₀ (done ++ [w]) s low fresh where
  sound := h.sound
  entered := h.entered
  stack := h.stack
  fresh_new := h.fresh_new
  low_le := h.low_le
  low_reached := h.low_reached
  low_bound := h.low_bound
  done_entered := forall_mem_concat h.done_entered hw
  done_bound := forall_mem_concat h.done_bound fun hmem ↦ absurd (h.mem_stack_of_mem hmem) hstack

theorem step_visited {reached : Nat} {fresh' : List α}
    (h : Scanned successors active v s₀ done s low fresh) (h₀ : s₀.Sound successors active)
    (hv : v ∉ s₀.entered) (hw : w ∈ successors v) (hnew : w ∉ s.entered)
    (hvisit : Visited successors (v :: active) w s s' reached fresh') :
    Scanned successors active v s₀ (done ++ [w]) s' (min low reached) (fresh' ++ fresh) := by
  obtain ⟨old, hold, hold_reach⟩ := h.entered
  obtain ⟨new, hentered, hnew_reach⟩ := hvisit.entered
  refine
    { sound := hvisit.sound
      entered := ⟨new ++ old, by rw [hentered, hold, List.append_assoc], ?_⟩
      stack := by rw [hvisit.stack, h.stack, List.append_assoc]
      fresh_new := ?_
      low_le := le_trans (min_le_left _ _) h.low_le
      low_reached := ?_
      low_bound := ?_
      done_entered := ?_
      done_bound := ?_ }
  · intro x hx
    rcases List.mem_append.mp hx with hx | hx
    · exact (ReflTransGen.single hw).trans (hnew_reach x hx)
    · exact hold_reach x hx
  · intro x hx hmem
    rcases List.mem_append.mp hx with hx | hx
    · exact hvisit.fresh_new x hx (h.mem_entered_of_mem hmem)
    · exact h.fresh_new x hx hmem
  · rcases le_or_gt low reached with hle | hlt
    · rw [min_eq_left hle]
      exact h.low_reached
    · rw [min_eq_right hlt.le]
      -- an answer this small is the number of a vertex that was open before the visit started
      have hlow := h.low_le
      have hlength := h.length_lt
      rcases hvisit.low_reached with heq | ⟨y, hy, hnumber, hreach⟩
      · omega
      · rcases h.mem_stack_cases hv hy with hmem | hy₀
        · refine Or.inr ⟨y, hmem, ?_, (ReflTransGen.single hw).trans hreach⟩
          rw [← h.number_eq (h₀.mem_entered_of_mem_stack hmem), hnumber]
        · have := h.le_number hy₀
          omega
  · intro x hx y hy hmem
    rcases List.mem_append.mp hx with hx | hx
    · rw [← h.number_eq (h₀.mem_entered_of_mem_stack hmem)]
      exact le_trans (min_le_right _ _) (hvisit.low_bound x hx y hy (h.mem_stack_of_mem hmem))
    · exact le_trans (min_le_left _ _) (h.low_bound x hx y hy hmem)
  · refine forall_mem_concat (fun y hy ↦ ?_) hvisit.mem
    rw [hentered]
    exact List.mem_append_right _ (h.done_entered y hy)
  · refine forall_mem_concat (fun y hy hmem ↦ ?_) fun hmem ↦ ?_
    · exact le_trans (min_le_left _ _) (h.done_bound y hy hmem)
    · exact absurd (h.sound.mem_entered_of_mem_stack (h.mem_stack_of_mem hmem)) hnew

/-! ## Leaving a vertex -/

theorem number_self (h : Scanned successors active v s₀ done s low fresh) (hv : v ∉ s₀.entered) :
    s.number v = s₀.entered.length := by
  obtain ⟨new, hnew, -⟩ := h.entered
  rw [number, hnew, List.reverse_append, List.reverse_cons, List.append_assoc,
    List.idxOf_append_of_notMem (fun hmem ↦ hv (List.mem_reverse.mp hmem)), List.length_reverse,
    List.singleton_append, List.idxOf_cons_self, Nat.add_zero]

/-- What lies above the vertex is not active. -/
theorem notMem_active (h : Scanned successors active v s₀ done s low fresh)
    (h₀ : s₀.Sound successors active) (hx : x ∈ fresh) : x ∉ v :: active := by
  intro hmem
  rcases List.mem_cons.mp hmem with rfl | hmem
  · have hnodup := (List.nodup_append.mp h.sound.nodup_split).1
    rw [h.stack] at hnodup
    exact (List.nodup_append.mp hnodup).2.2 x hx x List.mem_cons_self rfl
  · exact h.fresh_new x hx (h₀.mem_entered_of_mem_stack (h₀.active_stack x hmem))

theorem expanded_of_ne (h : Scanned successors active v s₀ (successors v) s low fresh)
    (hx : x ∈ s.entered) (hxa : x ∉ active) : ∀ w ∈ successors x, w ∈ s.entered := by
  by_cases hxv : x = v
  · subst hxv
    exact h.done_entered
  · exact h.sound.expanded x hx fun hmem ↦ by
      rcases List.mem_cons.mp hmem with hmem | hmem
      · exact hxv hmem
      · exact hxa hmem

/-- The answer is below the number of the vertex: its component is still open. -/
theorem leave (h : Scanned successors active v s₀ (successors v) s low fresh)
    (h₀ : s₀.Sound successors active) (hv : v ∉ s₀.entered) (hlow : low ≠ s₀.entered.length) :
    Visited successors active v s₀ s low (fresh ++ [v]) := by
  obtain hlow' | ⟨y₀, hy₀, hnumber, hvy₀⟩ := h.low_reached
  · exact absurd hlow' hlow
  obtain ⟨b, hb, hby₀, hy₀b⟩ := h₀.returns y₀ hy₀
  refine
    { sound :=
        { h.sound with
          active_stack := fun a ha ↦ h.sound.active_stack a (List.mem_cons_of_mem _ ha)
          expanded := fun x hx hxa ↦ h.expanded_of_ne hx hxa
          leads := fun a ha ↦ h.sound.leads a (List.mem_cons_of_mem _ ha)
          returns := ?_ }
      entered := h.exists_new
      mem := h.mem_entered
      stack := by rw [h.stack, List.append_cons]
      fresh_new := forall_mem_concat h.fresh_new hv
      low_reached := h.low_reached
      low_bound := forall_mem_concat h.low_bound h.done_bound }
  intro y hy
  obtain ⟨a, ha, hle, hya⟩ := h.sound.returns y hy
  rcases List.mem_cons.mp ha with rfl | ha
  · -- the vertex leads to an open vertex below it, and that one to an active vertex
    refine ⟨b, hb, ?_, (hya.trans hvy₀).trans hy₀b⟩
    have hself := h.number_self hv
    have hlow_le := h.low_le
    rw [h.number_eq (h₀.mem_entered_of_mem_stack (h₀.active_stack b hb))]
    omega
  · exact ⟨a, ha, hle, hya⟩

/-- When the answer is the number of the vertex, no edge leads from it, or from what lies above it,
to anything open below it. -/
theorem layered_close (h : Scanned successors active v s₀ (successors v) s s₀.entered.length fresh)
    (h₀ : s₀.Sound successors active) :
    Layered successors ((fresh ++ [v]) :: s.finished) := by
  refine ⟨fun x hx w hw ↦ ?_, h.sound.layered⟩
  have hx' : x ∈ fresh ∨ x = v := by simpa using hx
  have hwe : w ∈ s.entered := by
    rcases hx' with hx | rfl
    · have hxs : x ∈ s.stack := by
        rw [h.stack]
        exact List.mem_append_left _ hx
      exact h.sound.expanded x (h.sound.mem_entered_of_mem_stack hxs) (h.notMem_active h₀ hx) w hw
    · exact h.done_entered w hw
  rcases h.sound.mem_entered_iff.mp hwe with hws | hwf
  · rw [h.stack, List.append_cons, List.mem_append] at hws
    rcases hws with hws | hws
    · exact Or.inl hws
    · -- an edge to an open vertex below would have made the answer smaller
      have hlt := number_lt (h₀.mem_entered_of_mem_stack hws)
      have hle : s₀.entered.length ≤ s₀.number w := by
        rcases hx' with hx | rfl
        · exact h.low_bound x hx w hw hws
        · exact h.done_bound w hw hws
      omega
  · exact Or.inr hwf

/-- What lies above the vertex reaches it then, and is reached from it. -/
theorem strong_close (h : Scanned successors active v s₀ (successors v) s s₀.entered.length fresh)
    (h₀ : s₀.Sound successors active) (hv : v ∉ s₀.entered) (hx : x ∈ fresh ++ [v]) :
    Reaches successors x v ∧ Reaches successors v x := by
  have hxs : x ∈ s.stack := by
    rw [h.stack, List.append_cons]
    exact List.mem_append_left _ hx
  have hx₀ : x ∉ s₀.entered := forall_mem_concat h.fresh_new hv x hx
  constructor
  · obtain ⟨a, ha, -, hxa⟩ := h.sound.returns x hxs
    rcases List.mem_cons.mp ha with rfl | ha
    · exact hxa
    · -- a path to another active vertex would leave the closed part of the graph
      have hmem : a ∈ ((fresh ++ [v]) :: s.finished).flatten :=
        (h.layered_close h₀).mem_flatten_of_reaches
          (List.mem_append_left _ hx) hxa
      have hnodup := h.sound.nodup_split
      rw [h.stack, List.append_cons] at hnodup
      have ha₀ := h₀.active_stack a ha
      rcases List.mem_append.mp hmem with hmem | hmem
      · exact absurd rfl
          ((List.nodup_append.mp (List.nodup_append.mp hnodup).1).2.2 a hmem a ha₀)
      · exact absurd rfl ((List.nodup_append.mp hnodup).2.2 a (List.mem_append_right _ ha₀) a hmem)
  · refine h.sound.leads v List.mem_cons_self x hxs ?_
    rw [h.number_self hv]
    exact h.le_number hx₀

/-- The answer is the number of the vertex: its component is closed. -/
theorem close (h : Scanned successors active v s₀ (successors v) s s₀.entered.length fresh)
    (h₀ : s₀.Sound successors active) (hv : v ∉ s₀.entered) :
    Visited successors active v s₀ (s.close v) s₀.entered.length [] := by
  have hvf : v ∉ fresh := fun hmem ↦ h.notMem_active h₀ hmem List.mem_cons_self
  rw [close_eq h.stack hvf]
  refine
    { sound :=
        { nodup := h.sound.nodup
          split := ?_
          layered := h.layered_close h₀
          strong := ?_
          ne_nil := ?_
          active_stack := h₀.active_stack
          expanded := fun x hx hxa ↦ h.expanded_of_ne hx hxa
          leads := fun a ha y hy ↦
            h.sound.leads a (List.mem_cons_of_mem _ ha) y (h.mem_stack_of_mem hy)
          returns := ?_ }
      entered := h.exists_new
      mem := h.mem_entered
      stack := rfl
      fresh_new := by simp
      low_reached := Or.inl rfl
      low_bound := by simp }
  · have hsplit := h.sound.split
    rw [h.stack, List.append_cons, List.append_assoc] at hsplit
    refine hsplit.trans ?_
    rw [List.flatten_cons, ← List.append_assoc, ← List.append_assoc]
    exact List.perm_append_comm.append_right _
  · intro c hc x hx y hy
    rcases List.mem_cons.mp hc with rfl | hc
    · exact (h.strong_close h₀ hv hx).1.trans (h.strong_close h₀ hv hy).2
    · exact h.sound.strong c hc x hx y hy
  · intro c hc
    rcases List.mem_cons.mp hc with rfl | hc
    · simp
    · exact h.sound.ne_nil c hc
  · intro y hy
    obtain ⟨a, ha, hle, hya⟩ := h₀.returns y hy
    refine ⟨a, ha, ?_, hya⟩
    have hnumber : ∀ z ∈ s₀.stack, s.number z = s₀.number z := fun z hz ↦
      h.number_eq (h₀.mem_entered_of_mem_stack hz)
    exact (hnumber a (h₀.active_stack a ha)).trans_le (hle.trans_eq (hnumber y hy).symm)

end Scanned

/-! ## Whole searches

The vertices that can be reached lie in a finite set `U`. A visit has fuel for every vertex of `U`
that has not been entered, so it never runs out. -/

variable {U : Finset α} {fuel : Nat}

/-- With this much fuel, visits do what they should. -/
def Completes (successors : α → List α) (U : Finset α) (fuel : Nat) : Prop :=
  ∀ {active : List α} {v : α} {s : Search α}, s.Sound successors active → v ∉ s.entered →
    (∀ a ∈ active, Reaches successors a v) → v ∈ U →
    (U \ s.entered.toFinset).card ≤ fuel →
    ∃ fresh, Visited successors active v s (visit successors fuel v s).1
      (visit successors fuel v s).2 fresh

theorem Completes.scan_step (hfuel : Completes successors U fuel)
    (hclosed : ∀ x ∈ U, ∀ w ∈ successors x, w ∈ U) {s₀ : Search α}
    (h₀ : s₀.Sound successors active) (hv : v ∉ s₀.entered) (hvU : v ∈ U)
    (hreach : ∀ a ∈ active, Reaches successors a v) {done fresh : List α} {low : Nat} {w : α}
    (hw : w ∈ successors v) (h : Scanned successors active v s₀ done s low fresh)
    (hcard : (U \ s.entered.toFinset).card ≤ fuel) :
    ∃ fresh', Scanned successors active v s₀ (done ++ [w]) (scan successors fuel (s, low) w).1
      (scan successors fuel (s, low) w).2 fresh' := by
  by_cases hentered : w ∈ s.entered
  · by_cases hstack : w ∈ s.stack
    · exact ⟨fresh, by simpa [scan, hentered, hstack] using h.step_open h₀ hv hw hstack⟩
    · exact ⟨fresh, by simpa [scan, hentered, hstack] using h.step_finished hentered hstack⟩
  · have hactive : ∀ a ∈ v :: active, Reaches successors a w := by
      intro a ha
      rcases List.mem_cons.mp ha with rfl | ha
      · exact ReflTransGen.single hw
      · exact (hreach a ha).tail hw
    obtain ⟨fresh', hvisit⟩ := hfuel h.sound hentered hactive (hclosed v hvU w hw) hcard
    exact ⟨fresh' ++ fresh, by
      simpa [scan, hentered] using h.step_visited h₀ hv hw hentered hvisit⟩

private theorem Scanned.card_le {s₀ : Search α} {done fresh : List α} {low : Nat}
    (h : Scanned successors active v s₀ done s low fresh) (hv : v ∉ s₀.entered) (hvU : v ∈ U)
    (hcard : (U \ s₀.entered.toFinset).card ≤ fuel + 1) :
    (U \ s.entered.toFinset).card ≤ fuel := by
  have hsub : (s₀.enter v).entered ⊆ s.entered := by
    intro x hx
    rcases List.mem_cons.mp hx with rfl | hx
    · exact h.mem_entered
    · exact h.mem_entered_of_mem hx
  have hle := card_sdiff_le (U := U) hsub
  have hleft := card_sdiff_enter hvU hv
  omega

theorem Completes.scan_all (hfuel : Completes successors U fuel)
    (hclosed : ∀ x ∈ U, ∀ w ∈ successors x, w ∈ U) {s₀ : Search α}
    (h₀ : s₀.Sound successors active) (hv : v ∉ s₀.entered) (hvU : v ∈ U)
    (hreach : ∀ a ∈ active, Reaches successors a v)
    (hcard : (U \ s₀.entered.toFinset).card ≤ fuel + 1) :
    ∀ (rest done fresh : List α) (s : Search α) (low : Nat), (∀ w ∈ rest, w ∈ successors v) →
      Scanned successors active v s₀ done s low fresh →
      ∃ fresh', Scanned successors active v s₀ (done ++ rest)
        (rest.foldl (scan successors fuel) (s, low)).1
        (rest.foldl (scan successors fuel) (s, low)).2 fresh' := by
  intro rest
  induction rest with
  | nil => intro done fresh s low _ h; exact ⟨fresh, by simpa using h⟩
  | cons w rest ih =>
    intro done fresh s low hrest h
    obtain ⟨fresh', h'⟩ := hfuel.scan_step hclosed h₀ hv hvU hreach
      (hrest w List.mem_cons_self) h (h.card_le hv hvU hcard)
    rw [List.foldl_cons, List.append_cons]
    exact ih (done ++ [w]) fresh' _ _ (fun x hx ↦ hrest x (List.mem_cons_of_mem _ hx)) h'

/-- Enough fuel is as much as there are vertices left. -/
theorem completes (hclosed : ∀ x ∈ U, ∀ w ∈ successors x, w ∈ U) :
    ∀ fuel, Completes successors U fuel := by
  intro fuel
  induction fuel with
  | zero =>
    -- the vertex itself has not been entered, so some fuel is left
    intro active v s _ hv _ hvU hcard
    have hleft := card_sdiff_enter hvU hv
    omega
  | succ fuel ih =>
    intro active v s hs hv hreach hvU hcard
    obtain ⟨fresh, h⟩ := ih.scan_all hclosed hs hv hvU hreach hcard (successors v) [] [] _ _
      (fun w hw ↦ hw) (Scanned.enter hs hv hreach)
    rw [List.nil_append] at h
    rw [visit_succ]
    set r := (successors v).foldl (scan successors fuel) (s.enter v, s.entered.length)
    change ∃ fresh, Visited successors active v s
      (if r.2 = s.entered.length then r.1.close v else r.1) r.2 fresh
    -- the vertex closes a component exactly when nothing below it was seen
    by_cases hlow : r.2 = s.entered.length
    · rw [if_pos hlow]
      rw [hlow] at h ⊢
      exact ⟨[], h.close hs hv⟩
    · rw [if_neg hlow]
      exact ⟨fresh ++ [v], h.leave hs hv hlow⟩

/-- What holds between visits: nothing is active, and what has been entered is what the vertices
looked at lead to. -/
structure Rooted (successors : α → List α) (done : List α) (s : Search α) : Prop where
  sound : s.Sound successors []
  /-- The vertices looked at have been entered. -/
  done_entered : ∀ v ∈ done, v ∈ s.entered
  /-- Only what they lead to has been entered. -/
  entered_reached : ∀ x ∈ s.entered, ∃ v ∈ done, Reaches successors v x

theorem Rooted.step {done : List α} (h : Rooted successors done s)
    (hclosed : ∀ x ∈ U, ∀ w ∈ successors x, w ∈ U) (hvU : v ∈ U) (hbound : U.card ≤ fuel) :
    Rooted successors (done ++ [v]) (s.descend fuel successors v) := by
  rw [descend]
  split
  case isTrue hv =>
    refine ⟨h.sound, ?_, ?_⟩
    · exact forall_mem_concat h.done_entered hv
    · intro x hx
      obtain ⟨w, hw, hwx⟩ := h.entered_reached x hx
      exact ⟨w, List.mem_append_left _ hw, hwx⟩
  case isFalse hv =>
    obtain ⟨fresh, hvisit⟩ := completes hclosed fuel h.sound hv (by simp) hvU
      ((Finset.card_le_card Finset.sdiff_subset).trans hbound)
    obtain ⟨new, hentered, hreach⟩ := hvisit.entered
    refine ⟨hvisit.sound, ?_, ?_⟩
    · refine forall_mem_concat (fun w hw ↦ ?_) hvisit.mem
      rw [hentered]
      exact List.mem_append_right _ (h.done_entered w hw)
    · intro x hx
      rw [hentered] at hx
      rcases List.mem_append.mp hx with hx | hx
      · exact ⟨v, List.mem_append_right _ List.mem_cons_self, hreach x hx⟩
      · obtain ⟨w, hw, hwx⟩ := h.entered_reached x hx
        exact ⟨w, List.mem_append_left _ hw, hwx⟩

theorem Rooted.decomposes {vertices : List α} (h : Rooted successors vertices s) :
    Decomposes successors vertices s.finished.reverse where
  nodup := by
    have hnodup := (List.nodup_append.mp h.sound.nodup_split).2.1
    exact ((List.reverse_perm s.finished).flatten.nodup_iff).mpr hnodup
  ne_nil := fun c hc ↦ h.sound.ne_nil c (List.mem_reverse.mp hc)
  mem_iff := by
    intro x
    have hmem : x ∈ s.finished.reverse.flatten ↔ x ∈ s.finished.flatten :=
      (List.reverse_perm s.finished).flatten.mem_iff
    have hentered : ∀ y, y ∈ s.entered ↔ y ∈ s.finished.flatten := fun y ↦ by
      rw [h.sound.mem_entered_iff, h.sound.stack_eq_nil]
      simp
    rw [hmem]
    constructor
    · exact fun hx ↦ h.entered_reached x ((hentered x).mpr hx)
    · rintro ⟨v, hv, hvx⟩
      exact h.sound.layered.mem_flatten_of_reaches ((hentered v).mp (h.done_entered v hv)) hvx
  strong := fun c hc ↦ h.sound.strong c (List.mem_reverse.mp hc)
  closed := by
    intro earlier c later heq x hx w hw
    have hfinished : s.finished = later.reverse ++ c :: earlier.reverse := by
      rw [← List.reverse_reverse s.finished, heq]
      simp
    have hlayered := h.sound.layered
    rw [hfinished] at hlayered
    rcases hlayered.of_append x hx w hw with hw | hw
    · exact Or.inl hw
    · exact Or.inr ((List.reverse_perm earlier).flatten.mem_iff.mp hw)

end Search

/-- **The search finds the components**: each vertex that can be reached stands in one of them, the
vertices of one reach each other, and every edge stays in its component or leads to an earlier one.
The bound on the search is the number of vertices that it can meet. -/
theorem components_decompose [DecidableEq α] {successors : α → List α} {U : Finset α}
    {vertices : List α} {bound : Nat} (hclosed : ∀ x ∈ U, ∀ w ∈ successors x, w ∈ U)
    (hvertices : ∀ v ∈ vertices, v ∈ U) (hbound : U.card ≤ bound) :
    Decomposes successors vertices (components bound successors vertices) := by
  have hrun : ∀ (rest done : List α) (s : Search α), (∀ v ∈ rest, v ∈ U) →
      s.Rooted successors done →
      (rest.foldl (Search.descend bound successors) s).Rooted successors (done ++ rest) := by
    intro rest
    induction rest with
    | nil => intro done s _ h; simpa using h
    | cons v rest ih =>
      intro done s hrest h
      rw [List.foldl_cons, List.append_cons]
      exact ih (done ++ [v]) _ (fun w hw ↦ hrest w (List.mem_cons_of_mem _ hw))
        (h.step hclosed (hrest v List.mem_cons_self) hbound)
  have hstart : (Search.start : Search α).Rooted successors [] :=
    ⟨Search.Sound.start, by simp, by simp [Search.start]⟩
  rw [components_eq_descend hclosed hvertices hbound]
  exact (hrun vertices [] Search.start hvertices hstart).decomposes

namespace Decomposes

variable {successors : α → List α} {vertices : List α} {components : List (List α)}

theorem exists_mem (h : Decomposes successors vertices components) {v : α} (hv : v ∈ vertices) :
    ∃ c ∈ components, v ∈ c := by
  have hmem := (h.mem_iff v).mpr ⟨v, hv, ReflTransGen.refl⟩
  rwa [List.mem_flatten] at hmem

theorem mem_or_mem_of_reaches (h : Decomposes successors vertices components)
    {earlier later : List (List α)} {c : List α} (heq : components = earlier ++ c :: later)
    {x y : α} (hx : x ∈ c) (hxy : Reaches successors x y) : y ∈ c ∨ y ∈ earlier.flatten := by
  induction hxy with
  | refl => exact Or.inl hx
  | @tail y z _ hz ih =>
    rcases ih with hy | hy
    · exact h.closed earlier c later heq y hy z hz
    · right
      obtain ⟨d, hd, hyd⟩ := List.mem_flatten.mp hy
      obtain ⟨before, after, rfl⟩ := List.append_of_mem hd
      have hz := h.closed before d (after ++ c :: later) (by rw [heq]; simp) y hyd z hz
      simp only [List.flatten_append, List.flatten_cons, List.mem_append]
      tauto

theorem mem_of_reaches (h : Decomposes successors vertices components) {c : List α}
    (hc : c ∈ components) {x y : α} (hx : x ∈ c) (hxy : Reaches successors x y)
    (hyx : Reaches successors y x) : y ∈ c := by
  obtain ⟨earlier, later, heq⟩ := List.append_of_mem hc
  rcases h.mem_or_mem_of_reaches heq hx hxy with hy | hy
  · exact hy
  · -- an earlier component leads only to components before it
    obtain ⟨d, hd, hyd⟩ := List.mem_flatten.mp hy
    obtain ⟨before, after, rfl⟩ := List.append_of_mem hd
    have hnodup := h.nodup
    have hsplit : components = before ++ d :: (after ++ c :: later) := by rw [heq]; simp
    have hxd := h.mem_or_mem_of_reaches hsplit hyd hyx
    rw [heq] at hnodup
    simp only [List.flatten_append, List.flatten_cons, List.append_assoc, List.nodup_append,
      List.mem_append] at hnodup
    rcases hxd with hxd | hxd
    · exact absurd rfl (hnodup.2.1.2.2 x hxd x (Or.inr (Or.inl hx)))
    · exact absurd rfl (hnodup.2.2 x hxd x (Or.inr (Or.inr (Or.inl hx))))

theorem nodup_of_mem (h : Decomposes successors vertices components) {c : List α}
    (hc : c ∈ components) : c.Nodup :=
  (List.nodup_flatten.mp h.nodup).1 c hc

theorem notMem_flatten_of_mem (h : Decomposes successors vertices components)
    {earlier later : List (List α)} {c : List α} (heq : components = earlier ++ c :: later) {x : α}
    (hx : x ∈ c) : x ∉ earlier.flatten := by
  have hnodup := h.nodup
  rw [heq, List.flatten_append, List.flatten_cons, List.nodup_append] at hnodup
  exact fun hmem ↦ hnodup.2.2 x hmem x (List.mem_append_left _ hx) rfl

theorem eq_of_mem (h : Decomposes successors vertices components) {c d : List α}
    (hc : c ∈ components) (hd : d ∈ components) {x : α} (hxc : x ∈ c) (hxd : x ∈ d) : c = d := by
  by_contra hne
  have hsymm : Std.Symm (List.Disjoint (α := α)) := ⟨fun _ _ hab ↦ hab.symm⟩
  exact (List.nodup_flatten.mp h.nodup).2.forall hc hd hne hxc hxd

/-- The vertices of a component reach each other without leaving it. -/
theorem reaches_inside [DecidableEq α] (h : Decomposes successors vertices components) {c : List α}
    (hc : c ∈ components) {x y : α} (hx : x ∈ c) (hy : y ∈ c) :
    Reaches (fun v ↦ (successors v).filter (c.contains ·)) x y := by
  have hxy := h.strong c hc x hx y hy
  induction hxy using ReflTransGen.head_induction_on with
  | refl => exact ReflTransGen.refl
  | @head a b hab hby ih =>
    have hya := h.strong c hc y hy a hx
    have hb : b ∈ c := h.mem_of_reaches hc hx (ReflTransGen.single hab) (hby.trans hya)
    exact (ih hb).head (List.mem_filter.mpr ⟨hab, by simpa using hb⟩)

/-- A vertex of a component of several vertices lies on a cycle inside it. -/
theorem exists_return [DecidableEq α] (h : Decomposes successors vertices components) {c : List α}
    (hc : c ∈ components) (hlength : 1 < c.length) {x : α} (hx : x ∈ c) :
    ∃ u, Reaches (fun v ↦ (successors v).filter (c.contains ·)) x u ∧
      x ∈ (successors u).filter (c.contains ·) := by
  obtain ⟨y, hy, hyx⟩ : ∃ y ∈ c, y ≠ x := by
    by_contra hall
    push Not at hall
    have hsub : c.Subperm [x] :=
      List.subperm_of_subset (h.nodup_of_mem hc) fun y hy ↦ List.mem_singleton.mpr (hall y hy)
    have hle := hsub.length_le
    rw [List.length_singleton] at hle
    omega
  rcases ReflTransGen.cases_tail (h.reaches_inside hc hy hx) with heq | ⟨u, hyu, hux⟩
  · exact absurd heq.symm hyx
  · exact ⟨u, (h.reaches_inside hc hx hy).trans hyu, hux⟩

end Decomposes

end Datapath.Digraph
