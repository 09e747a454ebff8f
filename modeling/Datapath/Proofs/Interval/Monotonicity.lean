import Datapath.Proofs.Interval.Optimality
import Mathlib.Data.List.Forall2

/-!
# Monotonicity of the interval operations

Larger arguments give larger results. For products and quotients this is not read off the corners of
the two sides, which need not correspond. It follows from optimality: the larger result contains
every outcome for the smaller arguments, and the smaller result lies in every interval that does.
-/

namespace Datapath.Interval

variable {a a' b b' c c' : Interval}

theorem make_mono {lo lo' hi hi' : Int} (h : make lo hi = .ok a) (h' : make lo' hi' = .ok a')
    (hlo : lo' ≤ lo) (hhi : hi ≤ hi') : a.leq a' = true := by
  rw [leq_iff_forall_mem]
  intro n hn
  rw [mem_make_iff h] at hn
  exact (mem_make_iff h').mpr ⟨hlo.trans hn.1, hn.2.trans hhi⟩

/-! ## Lattice -/

theorem join_mono (ha : a.leq a' = true) (hb : b.leq b' = true) :
    (a.join b).leq (a'.join b') = true :=
  join_leq (leq_trans ha (leq_join_left a' b')) (leq_trans hb (leq_join_right a' b'))

theorem hull_mono {as as' : List Interval} (h : hull as = .ok a) (h' : hull as' = .ok a')
    (has : List.Forall₂ (fun b b' ↦ b.leq b' = true) as as') : a.leq a' = true := by
  cases has with
  | nil => cases h
  | @cons d d' ds ds' hd hrest =>
    cases h
    cases h'
    induction hrest generalizing d d' with
    | nil => exact hd
    | cons hnext _ ih => exact ih (join_mono hd hnext)

theorem wrap_mono {lo hi : Int} (h : a.wrap lo hi = .ok c) (h' : a'.wrap lo hi = .ok c')
    (ha : a.leq a' = true) : c.leq c' = true := by
  rw [leq_iff] at ha
  rw [wrap] at h h'
  split at h
  case isTrue hfits =>
    cases h
    split at h'
    case isTrue =>
      cases h'
      exact leq_iff.mpr ha
    case isFalse =>
      rw [leq_iff_forall_mem]
      intro n hn
      exact (mem_make_iff h').mpr ⟨hfits.1.trans hn.1, hn.2.trans hfits.2⟩
  case isFalse hfits =>
    -- what does not fit does not fit when it is larger either
    rw [if_neg (by omega)] at h'
    exact make_mono h h' le_rfl le_rfl

/-! ## Arithmetic -/

theorem Best.mono {op : Int → Int → Int} (h : Best op a b c) (h' : Best op a' b' c')
    (ha : a.leq a' = true) (hb : b.leq b' = true) : c.leq c' = true :=
  h.least c' fun x hx y hy ↦ h'.sound x (mem_of_leq ha hx) y (mem_of_leq hb hy)

theorem add_mono (ha : a.leq a' = true) (hb : b.leq b' = true) :
    (a.add b).leq (a'.add b') = true :=
  (best_add a b).mono (best_add a' b') ha hb

theorem sub_mono (ha : a.leq a' = true) (hb : b.leq b' = true) :
    (a.sub b).leq (a'.sub b') = true :=
  (best_sub a b).mono (best_sub a' b') ha hb

theorem mul_mono (ha : a.leq a' = true) (hb : b.leq b' = true) :
    (a.mul b).leq (a'.mul b') = true :=
  (best_mul a b).mono (best_mul a' b') ha hb

theorem div_mono (ha : a.leq a' = true) (hb : b.leq b' = true) :
    (a.div b).leq (a'.div b') = true :=
  (best_div a b).mono (best_div a' b') ha hb

end Datapath.Interval
