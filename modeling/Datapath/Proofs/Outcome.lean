import Mathlib.Data.List.Forall2

/-!
# Computations that may fail

How a computation in `Except` comes apart: what a bind, a map over a list and a fold over a list say
when they succeed, and where their failures come from.
-/

namespace Datapath.Outcome

variable {ε ε' α β σ : Type}

@[simp] theorem ok_bind (a : α) (f : α → Except ε β) : (Except.ok a >>= f) = f a := rfl

theorem bind_eq_ok {x : Except ε α} {f : α → Except ε β} {b : β} :
    x >>= f = .ok b ↔ ∃ a, x = .ok a ∧ f a = .ok b := by
  cases x with
  | error e => simp [bind, Except.bind]
  | ok a => simp [bind, Except.bind]

theorem bind_eq_error {x : Except ε α} {f : α → Except ε β} {e : ε} :
    x >>= f = .error e ↔ x = .error e ∨ ∃ a, x = .ok a ∧ f a = .error e := by
  cases x with
  | error e => simp [bind, Except.bind]
  | ok a => simp [bind, Except.bind]

theorem exists_of_isOk {x : Except ε α} (h : x.isOk = true) : ∃ a, x = .ok a := by
  cases x with
  | ok a => exact ⟨a, rfl⟩
  | error e => cases h

theorem exists_of_any {x : Except ε α} {p : α → Bool} (h : x.toOption.any p = true) :
    ∃ a, x = .ok a ∧ p a = true := by
  cases x with
  | ok a => exact ⟨a, rfl, h⟩
  | error e => cases h

theorem mapError_eq_ok {x : Except ε α} {f : ε → ε'} {a : α} :
    x.mapError f = .ok a ↔ x = .ok a := by
  cases x <;> simp [Except.mapError]

theorem mapError_eq_error {x : Except ε α} {f : ε → ε'} {e : ε'} :
    x.mapError f = .error e ↔ ∃ cause, x = .error cause ∧ f cause = e := by
  cases x <;> simp [Except.mapError]

theorem map_eq_ok {x : Except ε α} {f : α → β} {b : β} :
    x.map f = .ok b ↔ ∃ a, x = .ok a ∧ f a = b := by
  cases x <;> simp [Except.map]

theorem map_bind {γ : Type} (x : Except ε α) (f : α → β) (k : β → Except ε γ) :
    x.map f >>= k = x >>= fun a ↦ k (f a) := by
  cases x <;> rfl

theorem map_eq_error {x : Except ε α} {f : α → β} {e : ε} : x.map f = .error e ↔ x = .error e := by
  cases x <;> simp [Except.map]

theorem mapM_eq_ok {f : α → Except ε β} {xs : List α} {ys : List β} :
    xs.mapM f = .ok ys ↔ List.Forall₂ (fun x y ↦ f x = .ok y) xs ys := by
  induction xs generalizing ys with
  | nil =>
    rw [List.mapM_nil, List.forall₂_nil_left_iff]
    exact ⟨fun h ↦ by cases h; rfl, fun h ↦ by rw [h]; rfl⟩
  | cons x xs ih =>
    rw [List.mapM_cons, bind_eq_ok]
    constructor
    · rintro ⟨y, hy, hrest⟩
      obtain ⟨zs, hzs, heq⟩ := bind_eq_ok.mp hrest
      cases heq
      exact List.Forall₂.cons hy (ih.mp hzs)
    · intro h
      cases h with
      | cons hy hrest => exact ⟨_, hy, bind_eq_ok.mpr ⟨_, ih.mpr hrest, rfl⟩⟩

theorem mapM_congr {f f' : α → Except ε β} {xs : List α} (h : ∀ x ∈ xs, f x = f' x) :
    xs.mapM f = xs.mapM f' := by
  induction xs with
  | nil => rfl
  | cons x xs ih =>
    rw [List.mapM_cons, List.mapM_cons, h x List.mem_cons_self,
      ih fun y hy ↦ h y (List.mem_cons_of_mem _ hy)]

theorem mem_iff_of_mapM_eq_ok {f : α → Except ε β} {xs : List α} {ys : List β}
    (h : xs.mapM f = .ok ys) {y : β} : y ∈ ys ↔ ∃ x ∈ xs, f x = .ok y := by
  have hall := mapM_eq_ok.mp h
  clear h
  induction hall with
  | nil => simp
  | cons hxy _ ih => simp [hxy, ih, eq_comm]

theorem exists_mem_of_forall₂ {R : α → β → Prop} {xs : List α} {ys : List β}
    (h : List.Forall₂ R xs ys) {x : α} (hx : x ∈ xs) : ∃ y ∈ ys, R x y := by
  induction h with
  | nil => cases hx
  | cons hxy _ ih =>
    rcases List.mem_cons.mp hx with rfl | hx
    · exact ⟨_, List.mem_cons_self, hxy⟩
    · obtain ⟨y, hy, hR⟩ := ih hx
      exact ⟨y, List.mem_cons_of_mem _ hy, hR⟩

theorem pairwise_of_mapM_eq_ok {R : α → α → Prop} {S : β → β → Prop} {f : α → Except ε β}
    {xs : List α} {ys : List β} (h : xs.mapM f = .ok ys) (hxs : xs.Pairwise R)
    (hS : ∀ {x x' y y'}, R x x' → f x = .ok y → f x' = .ok y' → S y y') : ys.Pairwise S := by
  have hall := mapM_eq_ok.mp h
  clear h
  induction hall with
  | nil => exact .nil
  | cons hxy hrest ih =>
    obtain ⟨hx, hxs⟩ := List.pairwise_cons.mp hxs
    refine List.pairwise_cons.mpr ⟨fun y' hy' ↦ ?_, ih hxs⟩
    obtain ⟨x', hx', hxy'⟩ := (mem_iff_of_mapM_eq_ok (mapM_eq_ok.mpr hrest)).mp hy'
    exact hS (hx x' hx') hxy hxy'

theorem forall₂_of_mapM_eq_ok {γ : Type} {R : β → γ → Prop} {f : α → Except ε β}
    {f' : α → Except ε γ} {xs : List α} {ys : List β} {zs : List γ} (h : xs.mapM f = .ok ys)
    (h' : xs.mapM f' = .ok zs) (hR : ∀ x ∈ xs, ∀ y z, f x = .ok y → f' x = .ok z → R y z) :
    List.Forall₂ R ys zs := by
  have hall := mapM_eq_ok.mp h
  have hall' := mapM_eq_ok.mp h'
  clear h h'
  induction hall generalizing zs with
  | nil =>
    cases hall'
    exact .nil
  | cons hxy _ ih =>
    cases hall' with
    | cons hxz hrest =>
      exact .cons (hR _ List.mem_cons_self _ _ hxy hxz)
        (ih (fun x hx ↦ hR x (List.mem_cons_of_mem _ hx)) hrest)

theorem exists_of_mapM_eq_ok {f : α → Except ε β} {xs : List α} {ys : List β}
    (h : xs.mapM f = .ok ys) {x : α} (hx : x ∈ xs) : ∃ y, f x = .ok y := by
  obtain ⟨y, -, hy⟩ := exists_mem_of_forall₂ (mapM_eq_ok.mp h) hx
  exact ⟨y, hy⟩

theorem exists_mapM_eq_ok {f : α → Except ε β} {xs : List α} (h : ∀ x ∈ xs, ∃ y, f x = .ok y) :
    ∃ ys, xs.mapM f = .ok ys := by
  induction xs with
  | nil => exact ⟨[], rfl⟩
  | cons x xs ih =>
    obtain ⟨y, hy⟩ := h x List.mem_cons_self
    obtain ⟨ys, hys⟩ := ih fun z hz ↦ h z (List.mem_cons_of_mem _ hz)
    exact ⟨y :: ys, by rw [List.mapM_cons, hy, hys]; rfl⟩

theorem forM_eq_ok {f : α → Except ε Unit} {xs : List α} :
    xs.forM f = .ok () ↔ ∀ x ∈ xs, f x = .ok () := by
  induction xs with
  | nil => simp [pure, Except.pure]
  | cons x xs ih =>
    change (f x >>= fun _ ↦ xs.forM f) = .ok () ↔ _
    rw [bind_eq_ok, List.forall_mem_cons, ← ih]
    constructor
    · rintro ⟨⟨⟩, hx, hxs⟩
      exact ⟨hx, hxs⟩
    · rintro ⟨hx, hxs⟩
      exact ⟨(), hx, hxs⟩

/-- The failure of a map over a list is the failure of an item. -/
theorem exists_of_mapM_eq_error {f : α → Except ε β} {xs : List α} {e : ε}
    (h : xs.mapM f = .error e) : ∃ x ∈ xs, f x = .error e := by
  induction xs with
  | nil => cases h
  | cons x xs ih =>
    rw [List.mapM_cons] at h
    cases hx : f x with
    | error e' =>
      rw [hx] at h
      cases h
      exact ⟨x, List.mem_cons_self, hx⟩
    | ok y =>
      rw [hx] at h
      cases hxs : xs.mapM f with
      | error e' =>
        simp only [hxs] at h
        cases h
        obtain ⟨z, hz, hfz⟩ := ih hxs
        exact ⟨z, List.mem_cons_of_mem _ hz, hfz⟩
      | ok ys =>
        simp only [hxs] at h
        cases h

/-- What each step maintains holds after a fold over a list. -/
theorem foldlM_induction {f : σ → α → Except ε σ} {xs : List α} (P : List α → σ → Prop)
    (hstep : ∀ done a rest, xs = done ++ a :: rest →
      ∀ s s', P done s → f s a = .ok s' → P (done ++ [a]) s')
    {s s' : σ} (hstart : P [] s) (h : xs.foldlM f s = .ok s') : P xs s' := by
  have hrun : ∀ (rest done : List α) (s : σ), xs = done ++ rest → P done s →
      rest.foldlM f s = .ok s' → P xs s' := by
    intro rest
    induction rest with
    | nil =>
      intro done s heq hs hrun
      cases hrun
      rwa [heq, List.append_nil]
    | cons a rest ih =>
      intro done s heq hs hrun
      rw [List.foldlM_cons, bind_eq_ok] at hrun
      obtain ⟨s₁, hs₁, hrun⟩ := hrun
      exact ih (done ++ [a]) s₁ (by rw [heq, List.append_assoc]; rfl)
        (hstep done a rest heq s s₁ hs hs₁) hrun
  exact hrun xs [] s rfl hstart h

/-- A fold over a list fails at an item, in the state to which the items before it lead. -/
theorem exists_of_foldlM_eq_error {f : σ → α → Except ε σ} {xs : List α} {s : σ} {e : ε}
    (h : xs.foldlM f s = .error e) :
    ∃ done a rest s', xs = done ++ a :: rest ∧ done.foldlM f s = .ok s' ∧ f s' a = .error e := by
  induction xs generalizing s with
  | nil => cases h
  | cons x xs ih =>
    rw [List.foldlM_cons] at h
    rcases bind_eq_error.mp h with hx | ⟨s₁, hs₁, hrest⟩
    · exact ⟨[], x, xs, s, rfl, rfl, hx⟩
    · obtain ⟨done, a, rest, s', rfl, hdone, ha⟩ := ih hrest
      exact ⟨x :: done, a, rest, s', rfl, by rw [List.foldlM_cons, hs₁]; exact hdone, ha⟩

end Datapath.Outcome
