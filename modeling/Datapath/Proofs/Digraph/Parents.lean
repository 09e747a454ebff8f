import Datapath.Digraph.Path
import Mathlib.Data.List.Basic
import Mathlib.Data.List.Nodup

/-!
# Paths instead of parents

A breadth-first search notes the parent of every vertex that it meets and retraces a path at the
end. This module gives the same search with a queue of whole paths, `search`, about which the other
modules reason. The two find the same paths: `shortestCycle_eq_search`, `shortestPath_of_search` and
`exists_search_of_shortestPath`.

## Why the paths agree

A vertex is met after its parent, and its entry is never changed. Retracing it therefore gives the
same path at every later moment, and the queue of paths is the queue of vertices, each retraced. The
search for a path stops when the target is met and does not wait until it leaves the queue; by then
its path is settled.
-/

namespace Datapath.Digraph

variable {α : Type} [DecidableEq α] {successors : α → List α} {goal : α → Bool}

/-- The first path in the queue, in breadth-first order, whose last vertex meets the goal. Paths run
from their last vertex to the source. -/
def search (successors : α → List α) (goal : α → Bool) :
    Nat → List (List α) → List α → Option (List α)
  | 0, _, _ => none
  | _ + 1, [], _ => none
  | fuel + 1, [] :: queue, seen => search successors goal fuel queue seen
  | fuel + 1, (u :: path) :: queue, seen =>
    if goal u then some (u :: path)
    else
      let next := fresh seen (successors u)
      search successors goal fuel (queue ++ next.map (· :: u :: path)) (next ++ seen)

/-! ## Vertices that have not been met -/

theorem mem_fresh {w : α} {ws seen : List α} : w ∈ fresh seen ws ↔ w ∈ ws ∧ w ∉ seen := by
  induction ws generalizing seen with
  | nil => simp [fresh]
  | cons u ws ih =>
    rw [fresh]
    split
    case isTrue hu =>
      rw [ih, List.mem_cons]
      constructor
      · exact fun h ↦ ⟨Or.inr h.1, h.2⟩
      · rintro ⟨rfl | hw, hseen⟩
        · exact absurd hu hseen
        · exact ⟨hw, hseen⟩
    case isFalse hu =>
      rw [List.mem_cons, List.mem_cons, ih, List.mem_cons]
      by_cases hwu : w = u
      · subst hwu
        simp [hu]
      · simp [hwu]

theorem nodup_fresh {ws seen : List α} : (fresh seen ws).Nodup := by
  induction ws generalizing seen with
  | nil => simp [fresh]
  | cons u ws ih =>
    rw [fresh]
    split
    case isTrue => exact ih
    case isFalse =>
      rw [List.nodup_cons]
      exact ⟨fun h ↦ (mem_fresh.mp h).2 List.mem_cons_self, ih⟩

private theorem fresh_congr {seen seen' : List α} (h : ∀ x, x ∈ seen ↔ x ∈ seen') (ws : List α) :
    fresh seen ws = fresh seen' ws := by
  induction ws generalizing seen seen' with
  | nil => rfl
  | cons w ws ih =>
    have hcons : ∀ x, x ∈ w :: seen ↔ x ∈ w :: seen' := fun x ↦ by
      rw [List.mem_cons, List.mem_cons, h]
    simp only [fresh, h w, ih h, ih hcons]

namespace Parents

variable {source u v x : α} {parents later : Parents α} {fuel : Nat}

omit [DecidableEq α] in
theorem mem_met_append : x ∈ met source (parents ++ later) ↔
    x ∈ met source parents ∨ x ∈ later.map (·.1) := by
  rw [met, met, List.map_append, ← List.cons_append, List.mem_append]

/-- Parents that a search can have noted: a vertex is met for the first time, from one that has been
met before. -/
inductive Grown (source : α) : Parents α → Prop
  | nil : Grown source []
  | concat {parents : Parents α} {u v : α} : Grown source parents → u ∈ parents.met source →
    v ∉ parents.met source → Grown source (parents ++ [(v, u)])

omit [DecidableEq α] in
theorem Grown.append (h : Grown source parents) (hu : u ∈ parents.met source) {ws : List α}
    (hws : ∀ w ∈ ws, w ∉ parents.met source) (hnodup : ws.Nodup) :
    Grown source (parents ++ ws.map (·, u)) := by
  induction ws generalizing parents with
  | nil => simpa using h
  | cons w ws ih =>
    rw [List.forall_mem_cons] at hws
    rw [List.nodup_cons] at hnodup
    rw [List.map_cons, List.append_cons]
    refine ih (h.concat hu hws.1) (mem_met_append.mpr (Or.inl hu)) (fun y hy ↦ ?_) hnodup.2
    rw [mem_met_append, not_or]
    refine ⟨hws.2 y hy, ?_⟩
    rintro hmem
    obtain rfl : y = w := by simpa using hmem
    exact hnodup.1 hy

private theorem lookup_eq_none (h : v ∉ parents.map (·.1)) : parents.lookup v = none := by
  rw [List.lookup_eq_none_iff]
  intro p hp
  rw [bne_iff_ne]
  rintro rfl
  exact h (List.mem_map_of_mem hp)

private theorem lookup_map_pair {ws : List α} (hv : v ∈ ws) :
    (ws.map (·, u)).lookup v = some u := by
  induction ws with
  | nil => cases hv
  | cons w ws ih =>
    by_cases hvw : v = w
    · rw [hvw, List.map_cons, List.lookup_cons_self]
    · rw [List.map_cons, List.lookup_cons, beq_false_of_ne hvw]
      exact ih (List.mem_of_ne_of_mem hvw hv)

omit [DecidableEq α] in
theorem Grown.source_not_mem (h : Grown source parents) : source ∉ parents.map (·.1) := by
  induction h with
  | nil => exact List.not_mem_nil
  | @concat parents u v _ _ hv ih =>
    rw [List.map_append, List.mem_append, not_or]
    refine ⟨ih, ?_⟩
    rintro hmem
    obtain rfl : source = v := by simpa using hmem
    exact hv List.mem_cons_self

theorem retrace_eq_cons (parents : Parents α) (fuel : Nat) (v : α) :
    ∃ path, parents.retrace fuel v = v :: path := by
  cases fuel with
  | zero => exact ⟨[], rfl⟩
  | succ fuel =>
    rw [retrace]
    cases parents.lookup v with
    | none => exact ⟨[], rfl⟩
    | some u => exact ⟨_, rfl⟩

/-- **What has been met is retraced in the same way ever after.** -/
theorem Grown.retrace_append (h : Grown source parents) (hx : x ∈ parents.met source)
    (hlater : source ∉ later.map (·.1)) (hfuel : parents.length ≤ fuel) :
    (parents ++ later).retrace fuel x = parents.retrace parents.length x := by
  induction h generalizing x later fuel with
  | nil =>
    obtain rfl : x = source := by simpa [met] using hx
    cases fuel with
    | zero => rfl
    | succ fuel =>
      rw [List.nil_append, retrace, lookup_eq_none hlater]
      rfl
  | @concat parents u v hgrown hu hv ih =>
    have hvs : source ≠ v := fun heq ↦ hv (heq ▸ List.mem_cons_self)
    have hlater' : source ∉ ((v, u) :: later).map (·.1) := by
      rw [List.map_cons, List.mem_cons, not_or]
      exact ⟨hvs, hlater⟩
    have hlast : source ∉ [(v, u)].map (·.1) := by simpa using hvs
    have hkey : v ∉ parents.map (·.1) := fun hmem ↦ hv (List.mem_cons_of_mem _ hmem)
    have hlength : (parents ++ [(v, u)]).length = parents.length + 1 := by simp
    rw [hlength] at hfuel ⊢
    rw [List.append_assoc, List.singleton_append]
    rcases mem_met_append.mp hx with hx | hx
    · rw [ih hx hlater' (by omega), ih hx hlast (by omega)]
    · -- the last vertex leads to its parent, which was met before
      obtain rfl : x = v := by simpa using hx
      obtain ⟨fuel, rfl⟩ : ∃ k, fuel = k + 1 := ⟨fuel - 1, by omega⟩
      have hlookup : ∀ rest : Parents α, (parents ++ (x, u) :: rest).lookup x = some u := by
        intro rest
        rw [List.lookup_append, lookup_eq_none hkey, Option.none_or, List.lookup_cons_self]
      rw [retrace, retrace, hlookup, hlookup]
      dsimp only
      rw [ih hu hlater' (by omega), ih hu hlast (Nat.le_refl _)]

end Parents

/-! ## Two queues -/

open Parents

/-- A queue of vertices with the parents noted, and the queue of paths that stands for it. -/
structure Retraces (source : α) (queue : List α) (parents : Parents α) (paths : List (List α))
    (seen : List α) : Prop where
  grown : Grown source parents
  queue_met : ∀ x ∈ queue, x ∈ parents.met source
  paths_eq : paths = queue.map (parents.retrace parents.length)
  seen_iff : ∀ x, x ∈ seen ↔ x ∈ parents.met source

namespace Retraces

variable {source u target : α} {queue path seen : List α} {parents : Parents α}
  {paths : List (List α)}

theorem start (source : α) : Retraces source [source] [] [[source]] [source] :=
  ⟨.nil, by simp [met], rfl, by simp [met]⟩

private theorem exists_paths (h : Retraces source (u :: queue) parents paths seen) :
    ∃ path rest, parents.retrace parents.length u = u :: path ∧ paths = (u :: path) :: rest := by
  obtain ⟨path, hpath⟩ := parents.retrace_eq_cons parents.length u
  refine ⟨path, queue.map (parents.retrace parents.length), hpath, ?_⟩
  rw [h.paths_eq, List.map_cons, hpath]

private theorem grown_found (h : Retraces source (u :: queue) parents paths seen) :
    Grown source (parents ++ (parents.found successors source u).map (·, u)) :=
  h.grown.append (h.queue_met u List.mem_cons_self) (fun _ hw ↦ (mem_fresh.mp hw).2) nodup_fresh

/-- The first vertex is taken off both queues, and what it leads to goes to the end. -/
theorem step (h : Retraces source (u :: queue) parents ((u :: path) :: paths) seen) :
    Retraces source (queue ++ parents.found successors source u)
      (parents ++ (parents.found successors source u).map (·, u))
      (paths ++ (fresh seen (successors u)).map (· :: u :: path))
      (fresh seen (successors u) ++ seen) := by
  have hgrown : Grown source (parents ++ (parents.found successors source u).map (·, u)) :=
    h.grown_found
  have hfresh : fresh seen (successors u) = parents.found successors source u :=
    fresh_congr h.seen_iff _
  rw [hfresh]
  set found := parents.found successors source u with hfound
  have hu := h.queue_met u List.mem_cons_self
  have hpaths := h.paths_eq
  rw [List.map_cons, List.cons.injEq] at hpaths
  have hnames : (found.map (·, u)).map (·.1) = found := by
    rw [List.map_map, Function.comp_def, List.map_id']
  have hretrace : ∀ x ∈ parents.met source, ∀ fuel, parents.length ≤ fuel →
      (parents ++ found.map (·, u)).retrace fuel x = parents.retrace parents.length x :=
    fun x hx fuel hfuel ↦ h.grown.retrace_append hx
      (fun hmem ↦ hgrown.source_not_mem (List.map_append ▸ List.mem_append_right _ hmem)) hfuel
  have hlength : (parents ++ found.map (·, u)).length = parents.length + found.length := by simp
  refine ⟨hgrown, fun x hx ↦ ?_, ?_, fun x ↦ ?_⟩
  · rw [mem_met_append, hnames]
    exact (List.mem_append.mp hx).imp_left fun hx ↦ h.queue_met x (List.mem_cons_of_mem _ hx)
  · rw [List.map_append, hlength]
    congr 1
    · -- what has been waiting was met before, and is retraced as before
      rw [hpaths.2]
      exact List.map_congr_left fun x hx ↦
        (hretrace x (h.queue_met x (List.mem_cons_of_mem _ hx)) _ (Nat.le_add_right _ _)).symm
    · -- what is met now leads to `u`, and on as before
      refine List.map_congr_left fun w hw ↦ ?_
      have hkey : w ∉ parents.map (·.1) := fun hmem ↦
        (mem_fresh.mp hw).2 (List.mem_cons_of_mem _ hmem)
      have hpos := List.length_pos_of_mem hw
      obtain ⟨k, hk⟩ : ∃ k, parents.length + found.length = k + 1 :=
        ⟨parents.length + found.length - 1, by omega⟩
      rw [hk, retrace, List.lookup_append, lookup_eq_none hkey, Option.none_or, lookup_map_pair hw]
      dsimp only
      rw [hretrace u hu k (by omega), hpaths.1]
  · rw [mem_met_append, hnames, List.mem_append, h.seen_iff, or_comm]

theorem hunt_eq (h : Retraces source queue parents paths seen) (fuel : Nat) :
    (hunt successors goal source fuel queue parents).map
      (fun r ↦ r.2.retrace r.2.length r.1) = search successors goal fuel paths seen := by
  induction fuel generalizing queue parents paths seen with
  | zero => rfl
  | succ fuel ih =>
    rcases queue with _ | ⟨u, queue⟩
    · obtain rfl : paths = [] := by simpa using h.paths_eq
      rfl
    · obtain ⟨path, rest, hpath, rfl⟩ := h.exists_paths
      rw [hunt, search]
      by_cases hu : goal u = true
      · rw [if_pos hu, if_pos hu, Option.map_some, hpath]
      · rw [if_neg hu, if_neg hu]
        exact ih h.step

theorem hunt_eq_some (h : Retraces source queue parents paths seen) {fuel : Nat} {r : α × Parents α}
    (hr : hunt successors goal source fuel queue parents = some r) :
    goal r.1 = true ∧ Grown source r.2 ∧ ∃ later, r.2 = parents ++ later := by
  induction fuel generalizing queue parents paths seen with
  | zero => cases hr
  | succ fuel ih =>
    rcases queue with _ | ⟨u, queue⟩
    · cases hr
    · obtain ⟨path, rest, hpath, rfl⟩ := h.exists_paths
      rw [hunt] at hr
      by_cases hu : goal u = true
      · rw [if_pos hu, Option.some_inj] at hr
        subst hr
        exact ⟨hu, h.grown, [], (List.append_nil _).symm⟩
      · rw [if_neg hu] at hr
        obtain ⟨hgoal, hgrown, later, hlater⟩ := ih h.step hr
        exact ⟨hgoal, hgrown, _, by rw [hlater, List.append_assoc]⟩

/-- Once the target has been met, a hunt for it ends with its path. -/
theorem retrace_eq_of_hunt (h : Retraces source queue parents paths seen)
    (htarget : target ∈ parents.met source) {fuel : Nat} {r : α × Parents α}
    (hr : hunt successors (· = target) source fuel queue parents = some r) :
    parents.retrace parents.length target = r.2.retrace r.2.length r.1 := by
  obtain ⟨hgoal, hgrown, later, hlater⟩ := h.hunt_eq_some hr
  rw [of_decide_eq_true hgoal, hlater, h.grown.retrace_append htarget (fun hmem ↦ ?_) (by simp)]
  rw [hlater] at hgrown
  exact hgrown.source_not_mem (List.map_append ▸ List.mem_append_right _ hmem)

/-- A search that stops when the target is met finds the path that a hunt for it finds. -/
theorem spread_eq_of_hunt (h : Retraces source queue parents paths seen) {fuel : Nat}
    {r : α × Parents α} (hr : hunt successors (· = target) source fuel queue parents = some r) :
    target ∈ (spread successors source target fuel queue parents).met source ∧
      (spread successors source target fuel queue parents).retrace
        (spread successors source target fuel queue parents).length target =
          r.2.retrace r.2.length r.1 := by
  induction fuel generalizing queue parents paths seen with
  | zero => cases hr
  | succ fuel ih =>
    rcases queue with _ | ⟨u, queue⟩
    · cases hr
    · rw [spread]
      by_cases htarget : target ∈ parents.met source
      · rw [if_pos htarget]
        exact ⟨htarget, h.retrace_eq_of_hunt htarget hr⟩
      · -- the target has not been met, so it is not the vertex that leaves the queue
        have hu : u ≠ target := fun heq ↦ htarget (heq ▸ h.queue_met u List.mem_cons_self)
        obtain ⟨path, rest, -, rfl⟩ := h.exists_paths
        rw [hunt, if_neg (by simpa using hu)] at hr
        rw [if_neg htarget]
        exact ih h.step hr

private theorem exists_hunt_of_mem (before after : List α) (parents : Parents α) :
    ∃ r, hunt successors (· = target) source (before.length + 1) (before ++ target :: after)
      parents = some r := by
  induction before generalizing after parents with
  | nil => exact ⟨(target, parents), by simp [hunt]⟩
  | cons u before ih =>
    rw [List.length_cons, List.cons_append, hunt]
    by_cases hu : u = target
    · exact ⟨_, if_pos (by simpa using hu)⟩
    · rw [if_neg (by simpa using hu)]
      dsimp only
      rw [List.append_assoc, List.cons_append]
      exact ih _ _

private theorem exists_hunt_of_met (h : Retraces source queue parents paths seen)
    (htarget : target ∈ parents.met source) (hqueue : target ∈ queue) :
    ∃ n r, hunt successors (· = target) source n queue parents = some r ∧
      parents.retrace parents.length target = r.2.retrace r.2.length r.1 := by
  obtain ⟨before, after, rfl⟩ := List.append_of_mem hqueue
  obtain ⟨r, hr⟩ : ∃ r, hunt successors (· = target) source (before.length + 1)
      (before ++ target :: after) parents = some r := exists_hunt_of_mem before after parents
  exact ⟨_, r, hr, h.retrace_eq_of_hunt htarget hr⟩

/-- A target that has been met is found by a hunt that goes on for long enough. -/
theorem exists_hunt_of_spread (h : Retraces source queue parents paths seen)
    (hqueue : target ∈ parents.met source → target ∈ queue) {fuel : Nat}
    (htarget : target ∈ (spread successors source target fuel queue parents).met source) :
    ∃ n r, hunt successors (· = target) source n queue parents = some r ∧
      (spread successors source target fuel queue parents).retrace
        (spread successors source target fuel queue parents).length target =
          r.2.retrace r.2.length r.1 := by
  induction fuel generalizing queue parents paths seen with
  | zero => exact h.exists_hunt_of_met htarget (hqueue htarget)
  | succ fuel ih =>
    rcases queue with _ | ⟨u, queue⟩
    · exact h.exists_hunt_of_met htarget (hqueue htarget)
    · rw [spread] at htarget ⊢
      by_cases hmem : target ∈ parents.met source
      · rw [if_pos hmem]
        exact h.exists_hunt_of_met hmem (hqueue hmem)
      · rw [if_neg hmem] at htarget ⊢
        have hu : u ≠ target := fun heq ↦ hmem (heq ▸ h.queue_met u List.mem_cons_self)
        obtain ⟨path, rest, -, rfl⟩ := h.exists_paths
        -- if the target is met in this round, it goes to the end of the queue
        have hfound : target ∈ met source (parents ++
            (parents.found successors source u).map (·, u)) →
            target ∈ queue ++ parents.found successors source u := by
          intro hmet
          rw [mem_met_append, List.map_map, Function.comp_def, List.map_id'] at hmet
          exact List.mem_append_right _ (hmet.resolve_left hmem)
        obtain ⟨n, r, hr, heq⟩ := ih h.step hfound htarget
        refine ⟨n + 1, r, ?_, heq⟩
        rw [hunt, if_neg (by simpa using hu)]
        exact hr

end Retraces

/-! ## The two searches agree -/

variable {source target start : α} {path : List α} {fuel : Nat}

/-- **Parents and paths give the same cycle.** -/
theorem shortestCycle_eq_search :
    shortestCycle fuel successors start =
      (search successors (fun u ↦ decide (start ∈ successors u)) fuel [[start]] [start]).map
        (start :: ·) := by
  rw [shortestCycle, ← (Retraces.start start).hunt_eq fuel, Option.map_map]
  rfl

/-- **What the search over paths finds, parents give as well.** -/
theorem shortestPath_of_search
    (h : search successors (· = target) fuel [[source]] [source] = some path) :
    shortestPath fuel successors source target = some path.reverse := by
  rw [← (Retraces.start source).hunt_eq fuel, Option.map_eq_some_iff] at h
  obtain ⟨r, hr, rfl⟩ := h
  obtain ⟨hmet, hretrace⟩ := (Retraces.start source).spread_eq_of_hunt hr
  rw [shortestPath, if_pos hmet, hretrace]

/-- **What parents give, the search over paths finds as well**, though it may need more time. -/
theorem exists_search_of_shortestPath
    (h : shortestPath fuel successors source target = some path) :
    ∃ n, search successors (· = target) n [[source]] [source] = some path.reverse := by
  rw [shortestPath] at h
  split_ifs at h with hmet
  rw [Option.some_inj] at h
  obtain ⟨n, r, hr, hretrace⟩ := (Retraces.start source).exists_hunt_of_spread
    (by simp [met]) hmet
  refine ⟨n, ?_⟩
  rw [← (Retraces.start source).hunt_eq n, hr, Option.map_some, ← hretrace, ← h,
    List.reverse_reverse]

end Datapath.Digraph
