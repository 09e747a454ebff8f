import Datapath.Extent
import Datapath.Proofs.Interval.Soundness
import Mathlib.Data.Set.Card
import Mathlib.Data.Set.Finite.Lattice

/-!
# Widening stabilises

Widening gives an interval that contains the join, and it moves an end only if it has to. Repeated
widening therefore only grows, and this module bounds how often it does: as long as what is added
lies between the least and the greatest threshold, an end that moves lands on a threshold.

## The measure

A threshold that an end lands on was outside the interval before and is inside afterwards, and it
stays inside. So the thresholds that are still outside get fewer with every change. Both ends draw
on the same stock, because a threshold cannot be below and above an interval at once: there is at
most one change for each threshold, not one for each end and threshold.

Nothing here asks for thresholds in increasing order. The order decides which threshold an end lands
on, and not that it lands on one.
-/

namespace Datapath

namespace Extent

/-! ## Widening of extents -/

/-- On intervals and integers, widening of extents never fails. -/
theorem widen_ofInterval (a b : Interval) (thresholds : List Int) :
    (ofInterval a).widen (ofInterval b) (.arr (thresholds.map .int)) =
      .ok (ofInterval (a.widen b thresholds)) := by
  rw [widen, interval?_ofInterval, interval?_ofInterval, integers?, Json.integers?_map]

end Extent

namespace Interval

variable {a b : Interval} {thresholds : List Int} {t : Int}

/-! ## One widening -/

theorem make_widen (a b : Interval) (thresholds : List Int) :
    make (widenLo a b thresholds) (widenHi a b thresholds) = .ok (a.widen b thresholds) :=
  dif_pos (a.widen b thresholds).lo_le_hi

private theorem join_leq_widen (a b : Interval) (thresholds : List Int) :
    (a.join b).leq (a.widen b thresholds) = true :=
  join_leq (leq_widen_left a b thresholds) (leq_widen_right a b thresholds)

theorem lo_widen_of_le (thresholds : List Int) (h : a.lo ≤ b.lo) :
    (a.widen b thresholds).lo = a.lo :=
  if_neg h.not_gt

theorem hi_widen_of_le (thresholds : List Int) (h : b.hi ≤ a.hi) :
    (a.widen b thresholds).hi = a.hi :=
  if_neg h.not_gt

theorem widen_eq_self (thresholds : List Int) (h : b.leq a = true) : a.widen b thresholds = a := by
  rw [leq_iff] at h
  apply leq_antisymm _ (leq_widen_left a b thresholds)
  rw [leq_iff, lo_widen_of_le thresholds h.1, hi_widen_of_le thresholds h.2]
  exact ⟨le_rfl, le_rfl⟩

/-- A lower end that has to move lands on a threshold, if one is low enough. -/
theorem lo_widen_mem (hgrows : b.lo < a.lo) (ht : t ∈ thresholds) (hlow : t ≤ b.lo) :
    (a.widen b thresholds).lo ∈ thresholds := by
  change widenLo a b thresholds ∈ thresholds
  have hmem : t ∈ thresholds.filter (· ≤ b.lo) := by simpa using ⟨ht, hlow⟩
  rw [widenLo, if_pos hgrows, List.getLast?_eq_some_getLast (List.ne_nil_of_mem hmem),
    Option.getD_some]
  exact List.mem_of_mem_filter (List.getLast_mem _)

/-- An upper end that has to move lands on a threshold, if one is high enough. -/
theorem hi_widen_mem (hgrows : a.hi < b.hi) (ht : t ∈ thresholds) (hhigh : b.hi ≤ t) :
    (a.widen b thresholds).hi ∈ thresholds := by
  change widenHi a b thresholds ∈ thresholds
  have hmem : t ∈ thresholds.filter (b.hi ≤ ·) := by simpa using ⟨ht, hhigh⟩
  rw [widenHi, if_pos hgrows, List.head?_eq_some_head (List.ne_nil_of_mem hmem), Option.getD_some]
  exact List.mem_of_mem_filter (List.head_mem _)

/-! ## Thresholds outside an interval -/

/-- The thresholds that an interval does not contain. -/
def outlying (a : Interval) (thresholds : List Int) : Finset Int :=
  {t ∈ thresholds.toFinset | a.contains t = false}

theorem mem_outlying_iff : t ∈ a.outlying thresholds ↔ t ∈ thresholds ∧ t ∉ a := by
  rw [outlying, Finset.mem_filter, List.mem_toFinset, ← Bool.not_eq_true, contains_iff_mem]

private theorem card_outlying_le (a : Interval) (thresholds : List Int) :
    (a.outlying thresholds).card ≤ thresholds.length :=
  (Finset.card_filter_le _ _).trans (List.toFinset_card_le thresholds)

theorem outlying_subset_of_leq (thresholds : List Int) (h : a.leq b = true) :
    b.outlying thresholds ⊆ a.outlying thresholds := by
  intro t ht
  rw [mem_outlying_iff] at ht ⊢
  exact ⟨ht.1, fun hta ↦ ht.2 (mem_of_leq h hta)⟩

/-- A threshold that has been outside and is reached is outside no longer. -/
theorem outlying_ssubset (h : a.leq b = true) (ht : t ∈ thresholds) (hta : t ∉ a) (htb : t ∈ b) :
    b.outlying thresholds ⊂ a.outlying thresholds := by
  refine (Finset.ssubset_iff_of_subset (outlying_subset_of_leq thresholds h)).mpr ⟨t, ?_, ?_⟩
  · exact mem_outlying_iff.mpr ⟨ht, hta⟩
  · exact fun hout ↦ (mem_outlying_iff.mp hout).2 htb

/-- Whatever makes an interval grow between two thresholds takes a threshold into it. -/
theorem outlying_widen_ssubset (hlow : ∃ t ∈ thresholds, t ≤ b.lo)
    (hhigh : ∃ t ∈ thresholds, b.hi ≤ t) (hnew : ¬ b.leq a = true) :
    (a.widen b thresholds).outlying thresholds ⊂ a.outlying thresholds := by
  have hleft := leq_widen_left a b thresholds
  have hright := leq_iff.mp (leq_widen_right a b thresholds)
  by_cases hgrows : b.lo < a.lo
  · obtain ⟨t, ht, hle⟩ := hlow
    refine outlying_ssubset hleft (lo_widen_mem hgrows ht hle) (fun hmem ↦ ?_) (lo_mem _)
    exact absurd (hmem.1.trans hright.1) hgrows.not_ge
  · have hgrows' : a.hi < b.hi := by
      rw [leq_iff] at hnew
      omega
    obtain ⟨t, ht, hle⟩ := hhigh
    refine outlying_ssubset hleft (hi_widen_mem hgrows' ht hle) (fun hmem ↦ ?_) (hi_mem _)
    exact absurd (hright.2.trans hmem.2) hgrows'.not_ge

/-! ## Repeated widening -/

/-- The intervals that a start is widened to by one interval after another. -/
def widenings (start : Interval) (added : ℕ → Interval) (thresholds : List Int) : ℕ → Interval
  | 0 => start
  | k + 1 => (widenings start added thresholds k).widen (added k) thresholds

/-- The steps at which repeated widening changes the interval. -/
def changes (start : Interval) (added : ℕ → Interval) (thresholds : List Int) : Set ℕ :=
  {k | widenings start added thresholds (k + 1) ≠ widenings start added thresholds k}

/-- The number of thresholds that are still outside after some steps. -/
def leftOutside (start : Interval) (added : ℕ → Interval) (thresholds : List Int) (k : ℕ) : ℕ :=
  ((widenings start added thresholds k).outlying thresholds).card

section Run

variable {start : Interval} {added : ℕ → Interval}

private theorem antitone_leftOutside (start : Interval) (added : ℕ → Interval)
    (thresholds : List Int) : Antitone (leftOutside start added thresholds) := by
  refine antitone_nat_of_succ_le fun k ↦ Finset.card_le_card ?_
  exact outlying_subset_of_leq thresholds (leq_widen_left _ _ _)

variable (hlow : ∀ k, ∃ t ∈ thresholds, t ≤ (added k).lo)
  (hhigh : ∀ k, ∃ t ∈ thresholds, (added k).hi ≤ t)
include hlow hhigh

/-- Every change leaves fewer thresholds outside. -/
theorem leftOutside_succ_lt {k : ℕ} (hk : k ∈ changes start added thresholds) :
    leftOutside start added thresholds (k + 1) < leftOutside start added thresholds k := by
  have hnew : ¬ (added k).leq (widenings start added thresholds k) = true := fun hleq ↦
    hk (widen_eq_self thresholds hleq)
  exact Finset.card_lt_card (outlying_widen_ssubset (hlow k) (hhigh k) hnew)

/-- There are at most as many changes as there are thresholds outside the start. -/
theorem encard_changes_le (start : Interval) :
    (changes start added thresholds).encard ≤ (start.outlying thresholds).card := by
  have hanti := antitone_leftOutside start added thresholds
  -- the number of thresholds that a change leaves outside tells it from every other change
  have hstrict : StrictAntiOn (fun k ↦ leftOutside start added thresholds (k + 1))
      (changes start added thresholds) := fun k _ l hl hkl ↦
    (leftOutside_succ_lt hlow hhigh hl).trans_le (hanti hkl)
  have hmaps : Set.MapsTo (fun k ↦ leftOutside start added thresholds (k + 1))
      (changes start added thresholds) (Finset.range (leftOutside start added thresholds 0)) := by
    intro k hk
    rw [Finset.mem_coe, Finset.mem_range]
    exact (leftOutside_succ_lt hlow hhigh hk).trans_le (hanti k.zero_le)
  have hcount := Set.encard_le_encard_of_injOn hmaps hstrict.injOn
  rwa [Set.encard_coe_eq_coe_finsetCard, Finset.card_range] at hcount

/-- After some step nothing changes any more. -/
theorem exists_widenings_eq (start : Interval) : ∃ n, ∀ k, n ≤ k →
    widenings start added thresholds k = widenings start added thresholds n := by
  have hfinite := Set.finite_of_encard_le_coe (encard_changes_le hlow hhigh start)
  obtain ⟨last, hlast⟩ := hfinite.bddAbove
  refine ⟨last + 1, fun k hk ↦ ?_⟩
  induction k, hk using Nat.le_induction with
  | base => rfl
  | succ k hk ih =>
    have hsame : k ∉ changes start added thresholds := fun hmem ↦ by
      have := hlast hmem
      omega
    exact (not_ne_iff.mp hsame).trans ih

end Run

/-- **Widening with thresholds is an upper bound and stabilises.** Widening is defined for any two
intervals and any list of thresholds. It contains the join, and an end that is not exceeded stays
where it is. If all that is added lies between the least and the greatest threshold, repeated
widening changes any start at most twice as often as there are thresholds, in fact at most once for
each threshold outside the start, and is constant from some step on. -/
theorem widening_stabilises (thresholds : List Int) :
    (∀ a b : Interval,
      make (widenLo a b thresholds) (widenHi a b thresholds) = .ok (a.widen b thresholds) ∧
      (Extent.ofInterval a).widen (.ofInterval b) (.arr (thresholds.map .int)) =
        .ok (.ofInterval (a.widen b thresholds)) ∧
      (a.join b).leq (a.widen b thresholds) = true ∧
      (a.lo ≤ b.lo → (a.widen b thresholds).lo = a.lo) ∧
      (b.hi ≤ a.hi → (a.widen b thresholds).hi = a.hi)) ∧
    ∀ (hne : thresholds ≠ []) (start : Interval) (added : ℕ → Interval),
      (∀ k, thresholds.min hne ≤ (added k).lo ∧ (added k).hi ≤ thresholds.max hne) →
        (changes start added thresholds).encard ≤ 2 * thresholds.length ∧
        (changes start added thresholds).encard ≤ (start.outlying thresholds).card ∧
        ∃ n, ∀ k, n ≤ k →
          widenings start added thresholds k = widenings start added thresholds n := by
  refine ⟨fun a b ↦ ⟨make_widen a b thresholds, Extent.widen_ofInterval a b thresholds,
    join_leq_widen a b thresholds, lo_widen_of_le thresholds, hi_widen_of_le thresholds⟩, ?_⟩
  intro hne start added hwithin
  have hlow : ∀ k, ∃ t ∈ thresholds, t ≤ (added k).lo := fun k ↦
    ⟨thresholds.min hne, List.min_mem hne, (hwithin k).1⟩
  have hhigh : ∀ k, ∃ t ∈ thresholds, (added k).hi ≤ t := fun k ↦
    ⟨thresholds.max hne, List.max_mem hne, (hwithin k).2⟩
  have hcount := encard_changes_le hlow hhigh start
  refine ⟨hcount.trans ?_, hcount, exists_widenings_eq hlow hhigh start⟩
  have hcard := start.card_outlying_le thresholds
  exact_mod_cast (by omega : (start.outlying thresholds).card ≤ 2 * thresholds.length)

/-! ### One change for each threshold -/

/-- Thresholds on both sides of one. -/
def rungs : List Int := [-128, 0, 15, 255]

/-- What is added to one so that each of the thresholds is reached on its own. -/
def climb (k : ℕ) : Interval := point ([0, 2, 16].getD k (-1))

theorem rungs_ne_nil : rungs ≠ [] := List.cons_ne_nil _ _

theorem within_climb (k : ℕ) : rungs.min rungs_ne_nil ≤ (climb k).lo ∧
    (climb k).hi ≤ rungs.max rungs_ne_nil := by
  rcases k with _ | _ | _ | k
  · decide
  · decide
  · decide
  · change _ ≤ (-1 : Int) ∧ (-1 : Int) ≤ _
    decide

/-- Four thresholds outside the start, and four changes. -/
theorem widening_climb_stabilises :
    (∀ k, rungs.min rungs_ne_nil ≤ (climb k).lo ∧ (climb k).hi ≤ rungs.max rungs_ne_nil) ∧
      ((point 1).outlying rungs).card = 4 ∧ (changes (point 1) climb rungs).encard ≤ 4 ∧
      {0, 1, 2, 3} ⊆ changes (point 1) climb rungs ∧
      ∃ n, ∀ k, n ≤ k → widenings (point 1) climb rungs k = widenings (point 1) climb rungs n := by
  obtain ⟨-, hcount, hsettles⟩ :=
    (widening_stabilises rungs).2 rungs_ne_nil (point 1) climb within_climb
  refine ⟨within_climb, by decide, hcount, ?_, hsettles⟩
  simp only [Set.insert_subset_iff, Set.singleton_subset_iff, changes, Set.mem_ofPred_eq]
  decide

end Interval

end Datapath
