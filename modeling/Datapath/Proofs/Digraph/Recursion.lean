import Datapath.Digraph.Component
import Mathlib.Data.Finset.Card

/-!
# The search as a recursion

The search for components keeps the vertices that it is in the middle of in a stack of frames. This
module gives the same search as a recursion, `Search.visit`, about which the other modules reason,
and shows that the rounds over the stack compute it: `components_eq_descend`.

## The simulation

A frame is a call that has been interrupted. The rounds that it takes until its vertex is left
end in the state of the call, and leave what lies below on the stack as it was, apart from the
number that is reported to the next frame. This is `Simulates.foldl`. Rounds are paid for by the
vertices entered: each is entered once and left once.
-/

namespace Datapath.Digraph

namespace Search

variable {α : Type} [DecidableEq α] {successors : α → List α} {s s' : Search α} {v w : α}
  {U : Finset α} {depth : Nat}

/-- Enters a vertex that has not been met, searches everything reachable from it, and closes its
component if that is complete. The result includes the least number of an open vertex that was
reached. -/
def visit (successors : α → List α) : Nat → α → Search α → Search α × Nat
  | 0, v, s => (s, s.number v)
  | depth + 1, v, s =>
    let own := s.entered.length
    let (s, low) := (successors v).foldl
      (fun (s, low) w ↦
        if w ∈ s.entered then
          if w ∈ s.stack then (s, min low (s.number w)) else (s, low)
        else
          let (s, reached) := visit successors depth w s
          (s, min low reached))
      (s.enter v, own)
    (if low = own then s.close v else s, low)

/-- What a visit does with one successor of its vertex. -/
def scan (successors : α → List α) (depth : Nat) : Search α × Nat → α → Search α × Nat :=
  fun (s, low) w ↦
    if w ∈ s.entered then
      if w ∈ s.stack then (s, min low (s.number w)) else (s, low)
    else
      let (s, reached) := visit successors depth w s
      (s, min low reached)

/-- Visits a vertex, unless it has been met. -/
def descend (bound : Nat) (successors : α → List α) (s : Search α) (v : α) : Search α :=
  if v ∈ s.entered then s else (visit successors bound v s).1

theorem visit_succ (depth : Nat) :
    visit successors (depth + 1) v s =
      let r := (successors v).foldl (scan successors depth) (s.enter v, s.entered.length)
      (if r.2 = s.entered.length then r.1.close v else r.1, r.2) := rfl

private theorem scan_of_mem {low : Nat} (hw : w ∈ s.entered) :
    scan successors depth (s, low) w =
      (s, if w ∈ s.stack then min low (s.number w) else low) := by
  rw [scan, if_pos hw]
  split_ifs <;> rfl

private theorem scan_of_not_mem {low : Nat} (hw : w ∉ s.entered) :
    scan successors depth (s, low) w =
      ((visit successors depth w s).1, min low (visit successors depth w s).2) := by
  rw [scan, if_neg hw]

/-! ## Vertices stay entered -/

private theorem entered_close (s : Search α) (v : α) : (s.close v).entered = s.entered := rfl

private theorem entered_scan_of_visit
    (h : ∀ (s : Search α) (w : α), s.entered <:+ (visit successors depth w s).1.entered)
    (r : Search α × Nat) (w : α) : r.1.entered <:+ (scan successors depth r w).1.entered := by
  obtain ⟨s, low⟩ := r
  by_cases hw : w ∈ s.entered
  · rw [scan_of_mem hw]
  · rw [scan_of_not_mem hw]
    exact h s w

private theorem entered_foldl_of_visit
    (h : ∀ (s : Search α) (w : α), s.entered <:+ (visit successors depth w s).1.entered)
    (r : Search α × Nat) (ws : List α) :
    r.1.entered <:+ (ws.foldl (scan successors depth) r).1.entered := by
  refine List.foldlRecOn (motive := fun q : Search α × Nat ↦ r.1.entered <:+ q.1.entered) ws _
    (List.suffix_refl _) fun q hq w _ ↦ ?_
  exact hq.trans (entered_scan_of_visit h q w)

theorem entered_visit (successors : α → List α) (depth : Nat) (s : Search α) (v : α) :
    s.entered <:+ (visit successors depth v s).1.entered := by
  induction depth generalizing s v with
  | zero => exact List.suffix_refl _
  | succ depth ih =>
    have hfold := entered_foldl_of_visit ih (s.enter v, s.entered.length) (successors v)
    have henter : s.entered <:+ (s.enter v).entered := List.suffix_cons v s.entered
    rw [visit_succ]
    dsimp only
    split_ifs
    · rw [entered_close]
      exact henter.trans hfold
    · exact henter.trans hfold

theorem entered_scan (successors : α → List α) (depth : Nat) (r : Search α × Nat) (w : α) :
    r.1.entered <:+ (scan successors depth r w).1.entered :=
  entered_scan_of_visit (entered_visit successors depth) r w

theorem entered_foldl_scan (successors : α → List α) (depth : Nat) (r : Search α × Nat)
    (ws : List α) : r.1.entered <:+ (ws.foldl (scan successors depth) r).1.entered :=
  entered_foldl_of_visit (entered_visit successors depth) r ws

theorem number_of_suffix (hv : v ∉ s.entered) (h : (s.enter v).entered <:+ s'.entered) :
    s'.number v = s.entered.length := by
  obtain ⟨new, hnew⟩ := h
  rw [number, ← hnew, enter, List.reverse_append, List.reverse_cons, List.append_assoc,
    List.idxOf_append_of_notMem (by rwa [List.mem_reverse]), List.singleton_append,
    List.idxOf_cons_self, List.length_reverse, Nat.add_zero]

/-! ## Vertices left

All vertices lie in a finite set `U` that is closed under successors. -/

theorem card_sdiff_le (h : s.entered ⊆ s'.entered) :
    (U \ s'.entered.toFinset).card ≤ (U \ s.entered.toFinset).card := by
  refine Finset.card_le_card (Finset.sdiff_subset_sdiff (Finset.Subset.refl U) fun x hx ↦ ?_)
  rw [List.mem_toFinset] at hx ⊢
  exact h hx

theorem card_sdiff_enter (hvU : v ∈ U) (hv : v ∉ s.entered) :
    (U \ (s.enter v).entered.toFinset).card + 1 = (U \ s.entered.toFinset).card := by
  have hmem : v ∈ U \ s.entered.toFinset := by
    rw [Finset.mem_sdiff, List.mem_toFinset]
    exact ⟨hvU, hv⟩
  have herase : U \ (s.enter v).entered.toFinset = (U \ s.entered.toFinset).erase v := by
    rw [enter, List.toFinset_cons, Finset.sdiff_insert]
  rw [herase]
  exact Finset.card_erase_add_one hmem

/-- The vertices entered and those left to enter. Their number does not change while a search stays
in `U`. -/
def total (U : Finset α) (s : Search α) : Nat :=
  s.entered.length + (U \ s.entered.toFinset).card

private theorem total_enter (hvU : v ∈ U) (hv : v ∉ s.entered) :
    (s.enter v).total U = s.total U := by
  have hcard := card_sdiff_enter hvU hv
  have hlength : (s.enter v).entered.length = s.entered.length + 1 := List.length_cons
  rw [total, total]
  omega

private theorem total_foldl_of_visit
    (h : ∀ (s : Search α) (w : α), w ∈ U → w ∉ s.entered →
      (visit successors depth w s).1.total U = s.total U)
    {ws : List α} (hws : ∀ w ∈ ws, w ∈ U) (r : Search α × Nat) :
    (ws.foldl (scan successors depth) r).1.total U = r.1.total U := by
  refine List.foldlRecOn (motive := fun q : Search α × Nat ↦ q.1.total U = r.1.total U) ws _ rfl
    fun q hq w hw ↦ ?_
  obtain ⟨s, low⟩ := q
  rw [← hq]
  by_cases hentered : w ∈ s.entered
  · rw [scan_of_mem hentered]
  · rw [scan_of_not_mem hentered]
    exact h s w (hws w hw) hentered

private theorem total_visit (hclosed : ∀ x ∈ U, ∀ w ∈ successors x, w ∈ U) (s : Search α) (v : α)
    (hvU : v ∈ U) (hv : v ∉ s.entered) : (visit successors depth v s).1.total U = s.total U := by
  induction depth generalizing s v with
  | zero => rfl
  | succ depth ih =>
    have hfold := total_foldl_of_visit ih (hclosed v hvU) (s.enter v, s.entered.length)
    rw [total_enter hvU hv] at hfold
    rw [visit_succ, ← hfold]
    dsimp only
    split_ifs <;> rfl

/-! ## Rounds -/

private theorem work_nil (fuel : Nat) (s : Search α) : work successors fuel s [] = s := by
  cases fuel <;> rfl

private theorem work_left (fuel low : Nat) (below : List (Frame α)) :
    work successors (fuel + 1) s (⟨v, [], low⟩ :: below) =
      work successors fuel (s.leave v low) (Frame.lowerFirst low below) := rfl

private theorem work_known (fuel low : Nat) (ws : List α) (below : List (Frame α))
    (hw : w ∈ s.entered) :
    work successors (fuel + 1) s (⟨v, w :: ws, low⟩ :: below) =
      work successors (fuel + 1) s
        (⟨v, ws, if w ∈ s.stack then min low (s.number w) else low⟩ :: below) := by
  rw [work, work, round, round, advance, if_pos hw]

private theorem work_new (fuel low : Nat) (ws : List α) (below : List (Frame α))
    (hw : w ∉ s.entered) :
    work successors (fuel + 1) s (⟨v, w :: ws, low⟩ :: below) =
      work successors fuel (s.enter w)
        (⟨w, successors w, s.entered.length⟩ :: ⟨v, ws, low⟩ :: below) := by
  rw [work, round, advance, if_neg hw]

/-- The rounds that start with a vertex met for the first time are a visit. Two of them go to each
vertex that the visit enters, and the first of all has been spent. -/
def Simulates (successors : α → List α) (U : Finset α) (depth : Nat) : Prop :=
  ∀ {s : Search α} {v : α}, v ∈ U → v ∉ s.entered → (U \ s.entered.toFinset).card ≤ depth →
    ∀ (below : List (Frame α)) {fuel n : Nat},
    fuel + 2 * s.entered.length + 1 = n + 2 * (visit successors depth v s).1.entered.length →
    work successors fuel (s.enter v) (⟨v, successors v, s.entered.length⟩ :: below) =
      work successors n (visit successors depth v s).1
        (Frame.lowerFirst (visit successors depth v s).2 below)

/-- **A frame is an interrupted call.** The rounds until its vertex is left end where the recursion
over the rest of its successors ends. -/
theorem Simulates.foldl (h : Simulates successors U depth) (v : α) (below : List (Frame α))
    {ws : List α} (hws : ∀ w ∈ ws, w ∈ U) (s : Search α) (low : Nat) {fuel n : Nat}
    (hcard : (U \ s.entered.toFinset).card ≤ depth)
    (hfuel : fuel + 2 * s.entered.length =
      n + 2 * (ws.foldl (scan successors depth) (s, low)).1.entered.length + 1) :
    work successors fuel s (⟨v, ws, low⟩ :: below) =
      work successors n
        ((ws.foldl (scan successors depth) (s, low)).1.leave v
          (ws.foldl (scan successors depth) (s, low)).2)
        (Frame.lowerFirst (ws.foldl (scan successors depth) (s, low)).2 below) := by
  induction ws generalizing s low fuel with
  | nil =>
    obtain rfl : fuel = n + 1 := by
      dsimp only [List.foldl_nil] at hfuel
      omega
    exact work_left n low below
  | cons w ws ih =>
    rw [List.forall_mem_cons] at hws
    rw [List.foldl_cons] at hfuel ⊢
    have hfirst := (entered_scan successors depth (s, low) w).length_le
    have hrest :=
      (entered_foldl_scan successors depth (scan successors depth (s, low) w) ws).length_le
    obtain ⟨fuel, rfl⟩ : ∃ k, fuel = k + 1 := ⟨fuel - 1, by dsimp only at hfirst; omega⟩
    by_cases hw : w ∈ s.entered
    · -- a successor that has been met takes no round of its own
      rw [work_known fuel low ws below hw]
      rw [scan_of_mem hw] at hfuel ⊢
      exact ih hws.2 s _ hcard hfuel
    · -- the visit of the successor comes first, and reports to the frame that waits for it
      rw [work_new fuel low ws below hw]
      rw [scan_of_not_mem hw] at hfirst hrest hfuel ⊢
      set r := visit successors depth w s with hr
      dsimp only at hfirst hrest
      have hleft : (U \ r.1.entered.toFinset).card ≤ depth :=
        (card_sdiff_le (entered_visit successors depth s w).subset).trans hcard
      rw [h hws.1 hw hcard (⟨v, ws, low⟩ :: below)
        (n := fuel + 2 * s.entered.length + 1 - 2 * r.1.entered.length) (by rw [← hr]; omega)]
      exact ih hws.2 r.1 (min low r.2) hleft (by omega)

theorem simulates (hclosed : ∀ x ∈ U, ∀ w ∈ successors x, w ∈ U) (depth : Nat) :
    Simulates successors U depth := by
  induction depth with
  | zero =>
    -- no vertex is left, so none can be met for the first time
    intro s v hvU hv hcard
    have hleft := card_sdiff_enter hvU hv
    omega
  | succ depth ih =>
    intro s v hvU hv hcard below fuel n hfuel
    have hleft := card_sdiff_enter hvU hv
    have hlength : (s.enter v).entered.length = s.entered.length + 1 := List.length_cons
    have hsuffix := entered_foldl_scan successors depth (s.enter v, s.entered.length) (successors v)
    rw [visit_succ] at hfuel ⊢
    set r := (successors v).foldl (scan successors depth) (s.enter v, s.entered.length) with hr
    -- the number of the vertex is still the one under which it was entered
    have hleave : r.1.leave v r.2 = if r.2 = s.entered.length then r.1.close v else r.1 := by
      rw [leave, number_of_suffix hv hsuffix]
    have hentered : (r.1.leave v r.2).entered = r.1.entered := by
      rw [leave]
      split_ifs <;> rfl
    dsimp only at hfuel ⊢
    rw [← hleave] at hfuel ⊢
    rw [hentered] at hfuel
    exact ih.foldl v below (hclosed v hvU) (s.enter v) s.entered.length (by omega)
      (by rw [← hr]; omega)

/-- Twice as many rounds as there are vertices are enough. -/
theorem explore_eq_descend (hclosed : ∀ x ∈ U, ∀ w ∈ successors x, w ∈ U) (hvU : v ∈ U)
    {bound : Nat} (hbound : U.card ≤ bound) :
    s.explore bound successors v = s.descend bound successors v := by
  rw [explore, descend]
  split_ifs with hv
  · rfl
  · have hcard : (U \ s.entered.toFinset).card ≤ U.card := Finset.card_le_card Finset.sdiff_subset
    have htotal : (visit successors bound v s).1.total U = s.total U :=
      total_visit hclosed s v hvU hv
    have hspent : (visit successors bound v s).1.entered.length ≤ s.entered.length + bound := by
      rw [total, total] at htotal
      omega
    have hsome := (entered_visit successors bound s v).length_le
    rw [simulates hclosed bound hvU hv (hcard.trans hbound) []
      (n := 2 * bound + 2 * s.entered.length + 1 -
        2 * (visit successors bound v s).1.entered.length) (by omega)]
    exact work_nil _ _

end Search

/-- **The rounds compute the recursion**, once their bound is the number of vertices that can be
met. -/
theorem components_eq_descend {α : Type} [DecidableEq α] {successors : α → List α} {U : Finset α}
    {vertices : List α} {bound : Nat} (hclosed : ∀ x ∈ U, ∀ w ∈ successors x, w ∈ U)
    (hvertices : ∀ v ∈ vertices, v ∈ U) (hbound : U.card ≤ bound) :
    components bound successors vertices =
      (vertices.foldl (Search.descend bound successors) .start).finished.reverse := by
  rw [components, List.foldl_ext _ _ Search.start fun s v hv ↦
    Search.explore_eq_descend hclosed (hvertices v hv) hbound]

end Datapath.Digraph
