import Datapath.Gate
import Datapath.Proofs.Outcome

/-!
# Verdicts of the gate

When the gate blocks, said without the code that decides: on findings that are treated as errors, or
on a slack below what the policy requires.

Under a policy that can block, a build proceeds only on a slack that is at least what is required or
that is not a number: such a slack is below nothing.

A decision is put into words, and a word for a number goes through the nearest double. An integer
beyond the doubles has none, so there is no decision at all on such a slack, nor under a policy with
such a margin.
-/

namespace Datapath

/-! ## Numbers -/

theorem Extended.not_lt_iff {a b : Extended} :
    ¬ a.lt b = true ↔ a = .nan ∨ b = .nan ∨ b.le a = true := by
  cases a with
  | nan => simp [lt]
  | infinite negative =>
    cases b with
    | nan => simp [lt]
    | infinite other => cases negative <;> cases other <;> decide
    | rational q => cases negative <;> simp [lt, le, equals]
  | rational p =>
    cases b with
    | nan => simp [lt]
    | infinite negative => cases negative <;> simp [lt, le, equals]
    | rational q =>
      simp only [lt, le, equals, decide_eq_true_eq, Bool.or_eq_true, reduceCtorEq, false_or,
        rational.injEq]
      rw [Rat.not_lt, Rat.le_iff_lt_or_eq]

private theorem Double.value_eq_nan_iff {x : Double} : x.value = .nan ↔ x.isNan = true := by
  cases x <;> simp [value, isNan]

theorem Number.number?_toJson (x : Number) : x.toJson.number? = some x := by
  cases x <;> rfl

theorem Number.toDouble_cases (x : Number) :
    (∃ y, x.toDouble = .ok y) ∨ x.toDouble = .error .integerTooLarge := by
  cases x with
  | real y => exact Or.inl ⟨y, rfl⟩
  | int n =>
    rw [toDouble]
    split
    · exact Or.inr rfl
    · exact Or.inl ⟨_, rfl⟩

theorem Json.compare_of_number? {a b : Json} {x y : Number} (r : Comparison)
    (ha : a.number? = some x) (hb : b.number? = some y) :
    a.compare r b = .ok (r.onValues x.value y.value) := by
  cases a <;> cases b <;> cases ha <;> cases hb <;> simp [Json.compare, Json.number?]

theorem Json.inRounded_of_number? {a : Json} {x : Number} {form : Number → Except Mishap String}
    (ha : a.number? = some x) : a.inRounded form = form x := by
  simp [inRounded, ha]

/-! ## Policies -/

namespace Policy

variable {p : Policy} {x : Number}

/-- A slack is below what a policy requires. -/
def Violates (p : Policy) (x : Number) : Prop :=
  p.kind = .error ∧ x.value.lt .zero = true ∨
    p.kind = .strict ∧ ∃ m, p.margin.number? = some m ∧ x.value.lt m.value = true

/-- A decision on a slack needs a word for an integer beyond the doubles. -/
def Unworded (p : Policy) (x : Number) : Prop :=
  x.toDouble = .error .integerTooLarge ∨
    p.kind = .strict ∧ ∃ m, p.margin.number? = some m ∧ m.toDouble = .error .integerTooLarge

theorem exists_margin (h : p.kind = .strict) : ∃ m, p.margin.number? = some m := by
  have hallowed := p.allowed
  rw [h, PolicyKind.allows] at hallowed
  cases hm : p.margin.number? with
  | some m => exact ⟨m, rfl⟩
  | none =>
    rw [hm] at hallowed
    cases hallowed

theorem text_eq_of_strict (h : p.kind = .strict) {m : Number} (hm : p.margin.number? = some m) :
    p.text = m.rounded.map fun margin ↦ s!"strict(margin={margin}ns)" := by
  rw [text, h, Json.rounded, Json.inRounded_of_number? hm]

theorem exists_margin_rounded (h : ¬ p.Unworded x) (hkind : p.kind = .strict) :
    ∃ m words, p.margin.number? = some m ∧ m.rounded = .ok words := by
  obtain ⟨m, hm⟩ := exists_margin hkind
  obtain ⟨y, hy⟩ := m.toDouble_cases.resolve_right fun hbeyond ↦ h (Or.inr ⟨hkind, m, hm, hbeyond⟩)
  exact ⟨m, y.toRounded, hm, by rw [Number.rounded, hy]; rfl⟩

private theorem exists_text (h : ¬ p.Unworded x) : ∃ words, p.text = .ok words := by
  cases hkind : p.kind with
  | warn => exact ⟨_, by rw [text, hkind]⟩
  | error => exact ⟨_, by rw [text, hkind]⟩
  | strict =>
    obtain ⟨m, words, hm, hwords⟩ := exists_margin_rounded h hkind
    exact ⟨_, by rw [text_eq_of_strict hkind hm, hwords]; rfl⟩

/-- The least slack that lets a build proceed: zero, or the margin. -/
def Requires (p : Policy) (m : Number) : Prop :=
  p.kind = .error ∧ m = .real .zero ∨ p.kind = .strict ∧ p.margin.number? = some m

private theorem exists_requires (h : p.kind ≠ .warn) : ∃ m, p.Requires m := by
  cases hkind : p.kind with
  | warn => exact absurd hkind h
  | error => exact ⟨.real .zero, Or.inl ⟨hkind, rfl⟩⟩
  | strict =>
    obtain ⟨m, hm⟩ := exists_margin hkind
    exact ⟨m, Or.inr ⟨hkind, hm⟩⟩

theorem Requires.violates_iff {m : Number} (h : p.Requires m) (x : Number) :
    p.Violates x ↔ x.value.lt m.value = true := by
  rcases h with ⟨hkind, rfl⟩ | ⟨hkind, hm⟩
  · simp only [Violates, hkind, reduceCtorEq, false_and, or_false, true_and]
    rfl
  · simp [Violates, hkind, hm]

/-- Zero is a number, and a margin is above zero. -/
theorem Requires.value_ne_nan {m : Number} (h : p.Requires m) : m.value ≠ .nan := by
  rcases h with ⟨-, rfl⟩ | ⟨hkind, hm⟩
  · decide
  · intro hnan
    have hallowed := p.allowed
    rw [hkind, PolicyKind.allows, hm] at hallowed
    simp only [hnan] at hallowed
    cases hallowed

theorem required?_cases (p : Policy) :
    (p.required? = none ∧ ∀ x, ¬ p.Violates x) ∨
    ∃ bound m, p.required? = some bound ∧ bound.number? = some m ∧
      (∀ x, p.Violates x ↔ x.value.lt m.value = true) ∧
      ∀ x, ¬ p.Unworded x → ∃ words, bound.rounded = .ok words := by
  rw [required?]
  cases hkind : p.kind with
  | warn => exact Or.inl ⟨rfl, fun x ↦ by simp [Violates, hkind]⟩
  | error =>
    have hrequires : p.Requires (.real .zero) := Or.inl ⟨hkind, rfl⟩
    exact Or.inr ⟨_, .real .zero, rfl, rfl, hrequires.violates_iff, fun x _ ↦ ⟨_, rfl⟩⟩
  | strict =>
    obtain ⟨m, hm⟩ := exists_margin hkind
    have hrequires : p.Requires m := Or.inr ⟨hkind, hm⟩
    refine Or.inr ⟨_, m, rfl, hm, hrequires.violates_iff, fun x hx ↦ ?_⟩
    obtain ⟨m', words, hm', hwords⟩ := exists_margin_rounded hx hkind
    exact ⟨words, by rw [Json.rounded, Json.inRounded_of_number? hm', hwords]⟩

end Policy

/-! ## Decisions -/

private theorem Verdict.ne_block_iff {v : Verdict} : v ≠ .block ↔ v = .proceed := by
  cases v <;> decide

namespace Gate

variable {findings : List Diagnostic} {elevate : Bool} {p : Policy} {x : Number}

/-- Structure blocks exactly if findings are treated as errors and one is about a path that is too
deep. -/
theorem structural?_spec (findings : List Diagnostic) (elevate : Bool) :
    ((elevate = true ∧ ∃ f ∈ findings, f.isDepthViolation = true) ∧
      ∃ d, structural? findings elevate = some d ∧ d.verdict = .block) ∨
    ¬ (elevate = true ∧ ∃ f ∈ findings, f.isDepthViolation = true) ∧
      structural? findings elevate = none := by
  cases elevate with
  | false => exact Or.inr ⟨by simp, rfl⟩
  | true =>
    cases hviolations : violations findings with
    | nil =>
      refine Or.inr ⟨?_, by simp [structural?, hviolations]⟩
      rintro ⟨-, f, hf, hdeep⟩
      exact List.filter_eq_nil_iff.mp hviolations f hf hdeep
    | cons first rest =>
      have hfirst : first ∈ violations findings := by simp [hviolations]
      obtain ⟨hmem, hdeep⟩ := List.mem_filter.mp hfirst
      refine Or.inl ⟨⟨rfl, first, hmem, hdeep⟩, ?_⟩
      unfold structural?
      rw [hviolations]
      exact ⟨_, rfl, rfl⟩

theorem structural?_cases (h : ∀ f ∈ findings, f.isDepthViolation = true) :
    (elevate = true ∧ findings ≠ [] ∧
      ∃ d, structural? findings elevate = some d ∧ d.verdict = .block) ∨
    ¬ (elevate = true ∧ findings ≠ []) ∧ structural? findings elevate = none := by
  have hsome : (∃ f ∈ findings, f.isDepthViolation = true) ↔ findings ≠ [] := by
    constructor
    · rintro ⟨f, hf, -⟩
      exact List.ne_nil_of_mem hf
    · intro hne
      obtain ⟨f, hf⟩ := List.exists_mem_of_ne_nil findings hne
      exact ⟨f, hf, h f hf⟩
  have hspec := structural?_spec findings elevate
  rwa [hsome, and_assoc] at hspec

/-- There is no decision on a slack that cannot be put into words. -/
theorem onSlack_of_unworded (h : p.Unworded x) :
    onSlack findings x.toJson p = .error .integerTooLarge := by
  obtain ⟨below, hbelow⟩ : ∃ below,
      x.toJson.compare .less (p.required?.getD (.int 0)) = .ok below := by
    rcases p.required?_cases with ⟨hnone, -⟩ | ⟨bound, m, hbound, hm, -⟩
    · rw [hnone]
      exact ⟨_, Json.compare_of_number? _ x.number?_toJson rfl⟩
    · rw [hbound]
      exact ⟨_, Json.compare_of_number? _ x.number?_toJson hm⟩
  rw [onSlack, hbelow, Outcome.ok_bind, Json.signedRounded,
    Json.inRounded_of_number? x.number?_toJson, Number.signedRounded]
  by_cases hx : x.toDouble = .error .integerTooLarge
  · rw [hx]
    rfl
  · obtain ⟨y, hy⟩ := x.toDouble_cases.resolve_right hx
    obtain ⟨hkind, m, hm, hbeyond⟩ := h.resolve_left hx
    rw [hy, Policy.text_eq_of_strict hkind hm, Number.rounded, hbeyond]
    rfl

theorem onSlack_of_worded (h : ¬ p.Unworded x) :
    ∃ d, onSlack findings x.toJson p = .ok d ∧ (d.verdict = .block ↔ p.Violates x) := by
  obtain ⟨name, hname⟩ := Policy.exists_text h
  obtain ⟨y, hy⟩ := x.toDouble_cases.resolve_right fun hx ↦ h (Or.inl hx)
  have hshown : x.toJson.signedRounded = .ok y.toSignedRounded := by
    rw [Json.signedRounded, Json.inRounded_of_number? x.number?_toJson, Number.signedRounded, hy]
    rfl
  rw [onSlack, hshown, hname]
  rcases p.required?_cases with ⟨hnone, hviolates⟩ | ⟨bound, m, hbound, hm, hviolates, hwords⟩
  · rw [hnone, Option.getD_none, Json.compare_of_number? _ x.number?_toJson rfl]
    refine ⟨_, rfl, ?_⟩
    simp [hviolates]
  · rw [hbound, Option.getD_some, Json.compare_of_number? _ x.number?_toJson hm, hviolates]
    by_cases hless : x.value.lt m.value = true
    · obtain ⟨words, hwords⟩ := hwords x h
      simp [Comparison.onValues, hless, hwords]
    · simp [Comparison.onValues, hless, pure, Except.pure]

theorem decide_of_unworded (hfree : structural? findings elevate = none) (h : p.Unworded x) :
    decide findings (some x.toJson) p elevate = .error .integerTooLarge := by
  unfold decide
  rw [hfree]
  exact onSlack_of_unworded h

/-- Unless structure blocks, the gate blocks exactly if there is a slack and it violates the
policy. -/
theorem decide_of_worded {slack : Option Number} (hfree : structural? findings elevate = none)
    (h : ∀ x ∈ slack, ¬ p.Unworded x) :
    ∃ d, decide findings (slack.map Number.toJson) p elevate = .ok d ∧
      (d.verdict = .block ↔ ∃ x ∈ slack, p.Violates x) := by
  unfold decide
  rw [hfree]
  cases slack with
  | none => exact ⟨_, rfl, by simp⟩
  | some x =>
    obtain ⟨d, hd, hverdict⟩ := onSlack_of_worded (h x rfl)
    exact ⟨d, hd, by simpa using hverdict⟩

/-! ## When the gate proceeds -/

/-- **When a policy that can block lets a build proceed.** Structure must not block, and the slack
must be at least what the policy requires or not be a number. There is a decision unless the margin
has no word. -/
theorem proceeds_iff (hkind : p.kind ≠ .warn) (findings : List Diagnostic) (elevate : Bool)
    (x : Double) : ∃ required, p.Requires required ∧ required.value ≠ .nan ∧
      (∀ d, decide findings (some (.real x)) p elevate = .ok d →
        (d.verdict = .proceed ↔
          ¬ (elevate = true ∧ ∃ f ∈ findings, f.isDepthViolation = true) ∧
            (x.isNan = true ∨ required.value.le x.value = true))) ∧
      (¬ p.Unworded (.real x) → ∃ d, decide findings (some (.real x)) p elevate = .ok d) := by
  obtain ⟨required, hrequires⟩ := Policy.exists_requires hkind
  refine ⟨required, hrequires, hrequires.value_ne_nan, ?_⟩
  rcases structural?_spec findings elevate with ⟨hblocks, early, hearly, hverdict⟩ | ⟨hfree, hnone⟩
  · have hdecide : decide findings (some (.real x)) p elevate =
        .ok { early with oracleAvailable := true, slack := some (.real x) } := by
      unfold decide
      rw [hearly]
      rfl
    refine ⟨fun d hd ↦ ?_, fun _ ↦ ⟨_, hdecide⟩⟩
    obtain rfl := Except.ok.inj (hdecide.symm.trans hd)
    simp [hverdict, hblocks]
  · by_cases hworded : p.Unworded (.real x)
    · refine ⟨fun d hd ↦ ?_, absurd hworded⟩
      have herror : decide findings (some (.real x)) p elevate = .error .integerTooLarge :=
        decide_of_unworded hnone hworded
      rw [hd] at herror
      cases herror
    · have hslack : ∀ y ∈ some (Number.real x), ¬ p.Unworded y := by simpa using hworded
      obtain ⟨d, hdecide, hverdict⟩ := decide_of_worded hnone hslack
      refine ⟨fun d' hd ↦ ?_, fun _ ↦ ⟨d, hdecide⟩⟩
      obtain rfl := Except.ok.inj (hdecide.symm.trans hd)
      have hmeets : d.verdict = .proceed ↔ ¬ (Number.real x).value.lt required.value = true := by
        rw [← Verdict.ne_block_iff, ne_eq, hverdict, ← hrequires.violates_iff]
        simp
      rw [hmeets, Extended.not_lt_iff, or_iff_right hrequires.value_ne_nan, Number.value,
        Double.value_eq_nan_iff, and_iff_right hfree]

/-- The policy with a margin of one half. -/
def halfMargin : Policy := ⟨.strict, .real (Double.ofRat (1 / 2)), by decide +kernel⟩

/-- A slack of one meets a margin of one half, and a slack of one quarter does not. -/
theorem proceeds_halfMargin :
    (∃ d, decide [] (some (.real (Double.ofRat 1))) halfMargin false = .ok d ∧
      d.verdict = .proceed) ∧
    ∃ d, decide [] (some (.real (Double.ofRat (1 / 4)))) halfMargin false = .ok d ∧
      d.verdict ≠ .proceed := by
  have hworded : ∀ x : Double, ¬ halfMargin.Unworded (.real x) := by
    rintro x (hx | ⟨-, m, hm, hbeyond⟩)
    · cases hx
    · cases hm
      cases hbeyond
  constructor
  · obtain ⟨required, hrequires, -, hiff, hdecision⟩ :=
      proceeds_iff (p := halfMargin) (by decide) [] false (Double.ofRat 1)
    obtain ⟨d, hd⟩ := hdecision (hworded _)
    cases (hrequires.resolve_left fun herror ↦ absurd herror.1 (by decide)).2
    exact ⟨d, hd, (hiff d hd).mpr ⟨by simp, Or.inr (by decide +kernel)⟩⟩
  · obtain ⟨required, hrequires, -, hiff, hdecision⟩ :=
      proceeds_iff (p := halfMargin) (by decide) [] false (Double.ofRat (1 / 4))
    obtain ⟨d, hd⟩ := hdecision (hworded _)
    cases (hrequires.resolve_left fun herror ↦ absurd herror.1 (by decide)).2
    exact ⟨d, hd, fun hproceed ↦ absurd ((hiff d hd).mp hproceed).2 (by decide +kernel)⟩

/-- The policy under which negative slack blocks. -/
def nonnegative : Policy := ⟨.error, Policy.noMargin, by decide⟩

/-- A slack can be read that is not a number. It is not at least zero, and the build proceeds. -/
theorem proceeds_nan : Literal.double? "nan" = some (.nan 0) ∧
    (∃ d, decide [] (some (.real (.nan 0))) nonnegative false = .ok d ∧ d.verdict = .proceed) ∧
    nonnegative.Requires (.real .zero) ∧
    ¬ (Number.real .zero).value.le (Double.nan 0).value = true := by
  refine ⟨by decide +kernel, ?_, Or.inl ⟨rfl, rfl⟩, by decide⟩
  obtain ⟨d, hd, hverdict⟩ := Outcome.exists_of_any
    (show (decide [] (some (.real (.nan 0))) nonnegative false).toOption.any
      (Decidable.decide <| ·.verdict = .proceed) = true by decide +kernel)
  exact ⟨d, hd, of_decide_eq_true hverdict⟩

end Gate

end Datapath
