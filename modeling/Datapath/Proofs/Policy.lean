import Datapath.Config
import Datapath.Proofs.Gate
import Mathlib.Data.List.DropRight

/-!
# Names of policies

The name of a policy is read without the blanks around it and in small letters, but only the name
`strict` as it stands brings the margin along. Main statement: reading a name and reading its normal
form come to the same, unless the name is another spelling of `strict` and there is a margin that a
strict policy could use.
-/

namespace Datapath

/-! ## Blanks and small letters -/

namespace Text

variable {c : Char}

theorem toLower_cases (c : Char) :
    c.toLower = c ∨ 65 ≤ c.toNat ∧ c.toNat ≤ 90 ∧ c.toLower.toNat = c.toNat + 32 := by
  by_cases h : c.val ≥ 'A'.val ∧ c.val ≤ 'Z'.val
  · have hA : 65 ≤ c.toNat := h.1
    have hZ : c.toNat ≤ 90 := h.2
    refine Or.inr ⟨hA, hZ, ?_⟩
    have hlower : c.toLower = ⟨c.val + ('a'.val - 'A'.val), _⟩ := dif_pos h
    rw [hlower]
    change (c.val + 32).toNat = c.val.toNat + 32
    rw [UInt32.toNat_add, Nat.mod_eq_of_lt]
    · rfl
    · have : c.val.toNat = c.toNat := rfl
      have : (32 : UInt32).toNat = 32 := rfl
      omega
  · exact Or.inl (dif_neg h)

private theorem toLower_toLower (c : Char) : c.toLower.toLower = c.toLower := by
  rcases toLower_cases c.toLower with h | ⟨hA, hZ, -⟩
  · exact h
  · rcases toLower_cases c with h | ⟨hA', -, hshift⟩
    · rw [h, h]
    · omega

private theorem isBlank_toLower (c : Char) : isBlank c.toLower = isBlank c := by
  rcases toLower_cases c with h | ⟨hA, hZ, hshift⟩
  · rw [h]
  · have hapart : ∀ range ∈ blankRanges, range.2 < 65 ∨ 122 < range.1 := by decide
    rw [Bool.eq_iff_iff, isBlank, isBlank, List.any_eq_true, List.any_eq_true]
    refine exists_congr fun range ↦ and_congr_right fun hrange ↦ ?_
    have hcase := hapart range hrange
    rw [Bool.and_eq_true, Bool.and_eq_true, decide_eq_true_eq, decide_eq_true_eq,
      decide_eq_true_eq, decide_eq_true_eq]
    omega

theorem strip_eq (cs : List Char) : strip cs = (cs.dropWhile isBlank).rdropWhile isBlank := rfl

private theorem strip_strip (cs : List Char) : strip (strip cs) = strip cs := by
  have hhead : (strip cs).dropWhile isBlank = strip cs := by
    obtain ⟨rest, hrest⟩ := List.rdropWhile_prefix isBlank (l := cs.dropWhile isBlank)
    have hkeep := List.dropWhile_idempotent isBlank (l := cs)
    rw [List.dropWhile_eq_self_iff] at hkeep ⊢
    intro hpos
    rw [← strip_eq] at hrest
    have := hkeep (by rw [← hrest, List.length_append]; omega)
    simpa only [← hrest, List.getElem_append_left hpos] using this
  rw [strip_eq (strip cs), hhead]
  exact List.rdropWhile_idempotent isBlank _

private theorem strip_map_toLower (cs : List Char) :
    strip (cs.map Char.toLower) = (strip cs).map Char.toLower := by
  have hblank : isBlank ∘ Char.toLower = isBlank := funext isBlank_toLower
  rw [strip, strip, List.dropWhile_map, ← List.map_reverse, List.dropWhile_map, hblank,
    List.map_reverse]

end Text

/-! ## Policies by name -/

theorem PolicyKind.ofName?_eq_some_iff {kind : PolicyKind} {name : String} :
    ofName? name = some kind ↔ name = kind.name := by
  constructor
  · intro h
    have hfound := List.find?_some h
    exact (of_decide_eq_true hfound).symm
  · rintro rfl
    cases kind <;> decide

namespace Policy

open Text

variable {p : String} {margin : Json} {m : Number}

private theorem normalName_normalName (p : String) : normalName (normalName p) = normalName p := by
  have hlower : Char.toLower ∘ Char.toLower = Char.toLower := funext toLower_toLower
  rw [normalName, normalName, Literal.lower, Literal.lower, String.toList_ofList,
    strip_map_toLower, strip_strip, List.map_map, hlower]

theorem make_strict_cases (margin : Json) :
    (margin.number? = none ∧ ∃ mishap, make .strict margin = .error (.mishap mishap)) ∨
      ∃ m, margin.number? = some m ∧
        (Extended.zero.lt m.value = true ∧ (∃ policy, make .strict margin = .ok policy) ∨
          ¬ Extended.zero.lt m.value = true ∧
            ∃ cause, make .strict margin = .error (.misconfigured cause)) := by
  rw [make]
  unfold refuse
  by_cases hallows : PolicyKind.strict.allows margin = true
  · rw [dif_pos hallows]
    rw [PolicyKind.allows] at hallows
    cases hm : margin.number? with
    | none => simp [hm] at hallows
    | some m => exact Or.inr ⟨m, rfl, Or.inl ⟨by simpa [hm] using hallows, _, rfl⟩⟩
  · rw [dif_neg hallows]
    rw [PolicyKind.allows] at hallows
    cases hm : margin.number? with
    | none => exact Or.inl ⟨rfl, _, rfl⟩
    | some m => exact Or.inr ⟨m, rfl, Or.inr ⟨by simpa [hm] using hallows, _, rfl⟩⟩

theorem parse_none_of_strict (hname : normalName p = "strict") :
    parse (.str p) none = .error (.misconfigured .noMargin) := by
  have hkind : PolicyKind.ofName? (normalName p) = some .strict :=
    PolicyKind.ofName?_eq_some_iff.mpr hname
  unfold parse
  dsimp only
  rw [hkind]

private theorem exists_parse_none_iff : (∃ policy, parse (.str p) none = .ok policy) ↔
    normalName p = "warn" ∨ normalName p = "error" := by
  unfold parse
  dsimp only
  cases hkind : PolicyKind.ofName? (normalName p) with
  | none =>
    have hnone (kind : PolicyKind) : normalName p ≠ kind.name := by
      intro hname
      rw [PolicyKind.ofName?_eq_some_iff.mpr hname] at hkind
      cases hkind
    refine iff_of_false ?_ fun hname ↦ hname.elim (hnone .warn) (hnone .error)
    rintro ⟨policy, h⟩
    cases h
  | some kind =>
    have hname := PolicyKind.ofName?_eq_some_iff.mp hkind
    cases kind with
    | warn => exact iff_of_true ⟨_, rfl⟩ (Or.inl hname)
    | error => exact iff_of_true ⟨_, rfl⟩ (Or.inr hname)
    | strict =>
      rw [hname]
      refine iff_of_false ?_ (by decide)
      rintro ⟨policy, h⟩
      cases h

/-- Two attempts give the same policy, or both refuse the configuration. -/
def Agree (a b : Except Refusal Policy) : Prop :=
  (∃ policy, a = .ok policy ∧ b = .ok policy) ∨
    ∃ cause cause', a = .error (.misconfigured cause) ∧ b = .error (.misconfigured cause')

private theorem agree_parse_none (hname : normalName p ≠ "strict") :
    Agree (parse (.str p) none) (parse (.str (normalName p)) none) := by
  unfold parse
  dsimp only
  rw [normalName_normalName]
  cases hkind : PolicyKind.ofName? (normalName p) with
  | none => exact Or.inr ⟨_, _, rfl, rfl⟩
  | some kind =>
    cases kind with
    | warn => exact Or.inl ⟨_, rfl, rfl⟩
    | error => exact Or.inl ⟨_, rfl, rfl⟩
    | strict => exact absurd (PolicyKind.ofName?_eq_some_iff.mp hkind) hname

private theorem agree_make_strict_self :
    Agree (make .strict margin) (make .strict margin) ↔ ∃ m, margin.number? = some m := by
  rcases make_strict_cases margin with
    ⟨hm, mishap, h⟩ | ⟨m, hm, ⟨-, policy, h⟩ | ⟨-, cause, h⟩⟩
  · simp [Agree, h, hm]
  · simp [Agree, h, hm]
  · simp [Agree, h, hm]

private theorem agree_error_make_strict {cause : Misconfigured} :
    Agree (.error (.misconfigured cause)) (make .strict margin) ↔
      ∃ m, margin.number? = some m ∧ ¬ Extended.zero.lt m.value = true := by
  rcases make_strict_cases margin with
    ⟨hm, mishap, h⟩ | ⟨m, hm, ⟨hpos, policy, h⟩ | ⟨hpos, cause, h⟩⟩
  · simp [Agree, h, hm]
  · simp [Agree, h, hm, hpos]
  · simp [Agree, h, hm, hpos]

end Policy

/-! ## The policy of a configuration -/

namespace Config

open Policy

variable {c : Config} {p : String}

theorem gatePolicy_of_strict (hp : c.policy = .str "strict") (hmargin : c.margin ≠ .null) :
    c.gatePolicy = Policy.make .strict c.margin := by
  obtain ⟨clock, unitTime, policy, margin⟩ := c
  dsimp only at hp hmargin
  subst hp
  cases margin with
  | null => exact absurd rfl hmargin
  | _ => rfl

theorem gatePolicy_of_null (hp : c.policy = .str p) (hmargin : c.margin = .null) :
    c.gatePolicy = Policy.parse (.str p) none := by
  rw [gatePolicy, hp, hmargin]
  cases Json.str p == .str "strict" <;> rfl

theorem gatePolicy_of_ne (hp : c.policy = .str p) (hne : p ≠ "strict") :
    c.gatePolicy = Policy.parse (.str p) none := by
  have hother : (Json.str p == .str "strict") = false :=
    show (p == "strict") = false from beq_eq_false_iff_ne.mpr hne
  rw [gatePolicy, hp, hother]

/-- There is a policy if its name is right, and a positive margin is there if it is strict. -/
theorem exists_gatePolicy_iff (hp : c.policy = .str p) : (∃ policy, c.gatePolicy = .ok policy) ↔
    normalName p = "warn" ∨ normalName p = "error" ∨
      p = "strict" ∧ ∃ m, c.margin.number? = some m ∧ Extended.zero.lt m.value = true := by
  by_cases hstrict : p = "strict"
  · have hname : normalName p = "strict" := by rw [hstrict]; decide
    by_cases hnull : c.margin = .null
    · rw [gatePolicy_of_null hp hnull, parse_none_of_strict hname, hname]
      simp [hnull, Json.number?]
    · rw [gatePolicy_of_strict (hstrict ▸ hp) hnull, hname]
      rcases make_strict_cases c.margin with
        ⟨hm, mishap, h⟩ | ⟨m, hm, ⟨hpos, policy, h⟩ | ⟨hpos, cause, h⟩⟩
      · simp [h, hm]
      · simp [h, hm, hpos, hstrict]
      · simp [h, hm, hpos]
  · rw [gatePolicy_of_ne hp hstrict, exists_parse_none_iff]
    simp [hstrict]

/-- **A name and its normal form** give the same policy, or neither gives one. The exception is a
margin that is a positive number, or no number at all, with another spelling of `strict`. -/
theorem gatePolicy_normalName (c : Config) (p : String) :
    Agree { c with policy := .str p }.gatePolicy
        { c with policy := .str (normalName p) }.gatePolicy ↔
      (normalName p = "strict" → c.margin = .null ∨
        ∃ m, c.margin.number? = some m ∧ (Extended.zero.lt m.value = true → p = "strict")) := by
  by_cases hname : normalName p = "strict"
  case neg =>
    have hp : p ≠ "strict" := by
      rintro rfl
      exact hname (by decide)
    refine iff_of_true ?_ fun h ↦ absurd h hname
    rw [gatePolicy_of_ne rfl hp, gatePolicy_of_ne rfl hname]
    exact agree_parse_none hname
  case pos =>
    rw [hname]
    by_cases hnull : c.margin = .null
    · refine iff_of_true (Or.inr ⟨.noMargin, .noMargin, ?_, ?_⟩) fun _ ↦ Or.inl hnull
      · exact Eq.trans (gatePolicy_of_null rfl hnull) (parse_none_of_strict hname)
      · exact Eq.trans (gatePolicy_of_null rfl hnull) (parse_none_of_strict (by decide))
    · have hstrict : { c with policy := .str "strict" }.gatePolicy = make .strict c.margin :=
        gatePolicy_of_strict rfl hnull
      by_cases hp : p = "strict"
      · rw [hp, hstrict, agree_make_strict_self]
        simp [hnull]
      · have hother : { c with policy := .str p }.gatePolicy = .error (.misconfigured .noMargin) :=
          Eq.trans (gatePolicy_of_ne rfl hp) (parse_none_of_strict hname)
        rw [hother, hstrict, agree_error_make_strict]
        simp [hnull, hp]

/-- A strict policy with a margin and a capital. -/
def capitalised : Config :=
  { default with policy := .str "Strict", margin := .real (Double.ofRat (1 / 2)) }

/-- The margin is there, and is said to be missing. -/
theorem gatePolicy_capitalised :
    capitalised.gatePolicy = .error (.misconfigured .noMargin) ∧
      ∃ policy, { capitalised with policy := .str (normalName "Strict") }.gatePolicy = .ok policy ∧
        policy.kind = .strict ∧ policy.margin = .real (Double.ofRat (1 / 2)) := by
  have hname : normalName "Strict" = "strict" := by decide
  have hallows : PolicyKind.strict.allows capitalised.margin = true := by decide +kernel
  constructor
  · exact (gatePolicy_of_ne rfl (by decide)).trans (parse_none_of_strict hname)
  · rw [hname]
    exact ⟨_, Eq.trans (gatePolicy_of_strict rfl Json.noConfusion) (dif_pos hallows), rfl, rfl⟩

end Config

end Datapath
