import Datapath.Proofs.Inference.History

/-!
# The limit on evaluations

A loop is evaluated at most as often as the settings allow. The limit is the only setting here that
no interval depends on: it says when to give up, and nothing else.

## Two runs in step

Two inferences whose limits differ solve the same components in the same order. As long as the one
with the smaller limit has not given up, both are in the same state, so the next loop starts from
the same intervals in both, and widening starts at the same evaluation. `InStep` says this of two
computations. It passes through every way in which inference is put together, so all that is to be
looked at is one loop.
-/

namespace Datapath

namespace Inference

/-! ## Computations in step -/

section InStep

variable {α β σ : Type} {x x' : Except Failure α} {k k' : α → Except Failure β}

/-- A computation gives up on a loop. -/
def GivesUp (x : Except Failure α) : Prop := ∃ settled d, x = .error (.diverged settled d)

/-- The first of two computations comes to the same as the second, unless it gives up. -/
def InStep (x x' : Except Failure α) : Prop := x = x' ∨ GivesUp x

theorem GivesUp.bind (h : GivesUp x) (k : α → Except Failure β) : GivesUp (x >>= k) := by
  obtain ⟨settled, d, rfl⟩ := h
  exact ⟨settled, d, rfl⟩

theorem InStep.bind (hx : InStep x x') (hk : ∀ a, InStep (k a) (k' a)) :
    InStep (x >>= k) (x' >>= k') := by
  rcases hx with rfl | hx
  · rcases x with e | a
    · exact Or.inl rfl
    · exact hk a
  · exact Or.inr (hx.bind k)

theorem InStep.foldlM {f f' : σ → α → Except Failure σ} (h : ∀ s a, InStep (f s a) (f' s a))
    (xs : List α) (s : σ) : InStep (xs.foldlM f s) (xs.foldlM f' s) := by
  induction xs generalizing s with
  | nil => exact Or.inl rfl
  | cons a xs ih =>
    rw [List.foldlM_cons, List.foldlM_cons]
    exact (h s a).bind ih

end InStep

/-! ## One loop -/

variable {t t' : Tuning}

variable (evaluate : Evaluator)

end Inference

end Datapath
