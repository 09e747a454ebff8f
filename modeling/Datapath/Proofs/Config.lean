import Datapath.Proofs.Platform
import Datapath.Proofs.Policy

/-!
# Configurations without warnings

A configuration is looked at for warnings, and its parts are built with checks of their own. Main
statement: without warnings the severity and the weights are right, and it is said exactly when the
knobs, the policy and the platform can be built. Warnings do not cover the name of the policy, a
missing margin, the width of an input or a clock that is out of range.
-/

namespace Datapath

/-! ## Replaced weights -/

namespace WeightTable

variable {k kind : Kind} {w : Int} {weights : List (Kind × Int)}

private theorem negativeKinds_eq_nil :
    negativeKinds weights = [] ↔ ∀ entry ∈ weights, 0 ≤ entry.2 := by
  rw [negativeKinds, List.map_eq_nil_iff, List.filter_eq_nil_iff]
  simp

private theorem isSome_lookup_setWeight (h : (weights.lookup k).isSome = true) :
    ((setWeight kind w weights).lookup k).isSome = true := by
  induction weights with
  | nil => cases h
  | cons entry weights ih =>
    obtain ⟨k', w'⟩ := entry
    rw [setWeight]
    by_cases hk : k = k'
    · rw [hk]
      split <;> simp
    · have hother : (k == k') = false := beq_false_of_ne hk
      rw [List.lookup_cons, hother] at h
      split
      · rwa [List.lookup_cons, hother]
      · rw [List.lookup_cons, hother]
        exact ih h

private theorem mem_setWeight {entry : Kind × Int} (h : entry ∈ setWeight kind w weights) :
    entry.2 = w ∨ entry ∈ weights := by
  induction weights with
  | nil =>
    rw [setWeight, List.mem_singleton] at h
    exact Or.inl (by rw [h])
  | cons first weights ih =>
    obtain ⟨k', w'⟩ := first
    rw [setWeight] at h
    split at h
    · rcases List.mem_cons.mp h with rfl | h
      · exact Or.inl rfl
      · exact Or.inr (List.mem_cons_of_mem _ h)
    · rcases List.mem_cons.mp h with rfl | h
      · exact Or.inr List.mem_cons_self
      · exact (ih h).imp_right (List.mem_cons_of_mem _)

private theorem missingKinds_eq_nil :
    missingKinds weights = [] ↔ ∀ k ∈ Kind.all, (weights.lookup k).isSome = true := by
  rw [missingKinds, List.filter_eq_nil_iff]
  simp

theorem exists_make_setWeights {replaced : List (Kind × Int)}
    (hcomplete : missingKinds weights = []) (hnonneg : negativeKinds weights = [])
    (h : ∀ entry ∈ replaced, 0 ≤ entry.2) :
    ∃ t, make (setWeights weights replaced) = .ok t := by
  induction replaced generalizing weights with
  | nil => exact ⟨_, (dif_pos hcomplete).trans (dif_pos hnonneg)⟩
  | cons entry replaced ih =>
    have hentry := h entry List.mem_cons_self
    refine ih ?_ ?_ (fun other hother ↦ h other (List.mem_cons_of_mem _ hother))
    · rw [missingKinds_eq_nil] at hcomplete ⊢
      exact fun k hk ↦ isSome_lookup_setWeight (hcomplete k hk)
    · rw [negativeKinds_eq_nil] at hnonneg ⊢
      intro other hother
      rcases mem_setWeight hother with heq | hold
      · rwa [heq]
      · exact hnonneg other hold

end WeightTable

/-! ## Knobs -/

theorem Json.compare_less_int (m n : Int) :
    (Json.int m).compare .less (.int n) = .ok (decide (m < n)) := by
  rw [Json.compare_of_number? _ rfl rfl]
  simp [Comparison.onValues, Number.value, Extended.lt]

theorem Json.le_of_compare_less_int {m n : Int}
    (h : (Json.int m).compare .less (.int n) = .ok false) : n ≤ m := by
  rw [compare_less_int] at h
  exact not_lt.mp (of_decide_eq_false (Except.ok.inj h))

theorem Knobs.refuseBelow_int (m limit : Int) (cause : Misconfigured) :
    refuseBelow (.int m) limit cause =
      if m < limit then .error (.misconfigured cause) else .ok () := by
  rw [refuseBelow, Json.compare_less_int]
  by_cases h : m < limit
  · rw [decide_eq_true h, if_pos h]
    rfl
  · rw [decide_eq_false h, if_neg h]
    rfl

namespace Config

open Policy Json

variable {c c' : Config} {key : String} {value : Json} {entries : List (String × Json)}

/-! ## Settings of the right kinds -/

/-- A value is of a kind that the setting with a key may have. -/
def Fits (key : String) (value : Json) : Prop :=
  ∀ setting ∈ expectedKinds, setting.1 = key → setting.2.any (·.holds value) = true

/-- Every setting is of the right kind, and the weights are integers. -/
structure Kinded (c : Config) : Prop where
  fits : ∀ field ∈ c.fields, Fits field.1 field.2
  weights : checkWeights c.weights = .ok ()

private theorem kinded_default : default.Kinded where
  fits := by
    unfold Fits
    decide +kernel
  weights := rfl

theorem set?_eq_some (h : c.set? key value = some c') :
    key = "weights" ∧ c'.fields = c.fields ∧ c'.weights = value ∨
      (∃ i, c'.fields = c.fields.set i (key, value)) ∧ c'.weights = c.weights := by
  unfold set? at h
  split at h <;> cases h
  · exact Or.inr ⟨⟨0, rfl⟩, rfl⟩
  · exact Or.inr ⟨⟨1, rfl⟩, rfl⟩
  · exact Or.inr ⟨⟨2, rfl⟩, rfl⟩
  · exact Or.inr ⟨⟨3, rfl⟩, rfl⟩
  · exact Or.inr ⟨⟨4, rfl⟩, rfl⟩
  · exact Or.inr ⟨⟨5, rfl⟩, rfl⟩
  · exact Or.inr ⟨⟨6, rfl⟩, rfl⟩
  · exact Or.inr ⟨⟨7, rfl⟩, rfl⟩
  · exact Or.inr ⟨⟨8, rfl⟩, rfl⟩
  · exact Or.inr ⟨⟨9, rfl⟩, rfl⟩
  · exact Or.inl ⟨rfl, rfl, rfl⟩

theorem Kinded.set? (hc : c.Kinded) (hvalue : Fits key value)
    (hweights : key = "weights" → checkWeights value = .ok ()) (h : c.set? key value = some c') :
    c'.Kinded := by
  obtain ⟨rfl, hfields, hw⟩ | ⟨⟨i, hfields⟩, hw⟩ := set?_eq_some h
  · exact ⟨by rw [hfields]; exact hc.fits, by rw [hw]; exact hweights rfl⟩
  · refine ⟨fun field hfield ↦ ?_, by rw [hw]; exact hc.weights⟩
    rw [hfields] at hfield
    rcases List.mem_or_eq_of_mem_set hfield with hold | rfl
    · exact hc.fits field hold
    · exact hvalue

theorem Kinded.setAll (hc : c.Kinded) (hfits : ∀ entry ∈ entries, Fits entry.1 entry.2)
    (hweights : ∀ value, ("weights", value) ∈ entries → checkWeights value = .ok ())
    (h : c.setAll entries = .ok c') : c'.Kinded := by
  refine Outcome.foldlM_induction (fun _ c ↦ c.Kinded) ?_ hc h
  rintro done ⟨key, value⟩ rest rfl c c' hc hset
  have hmem : (key, value) ∈ done ++ (key, value) :: rest := by simp
  dsimp only at hset
  split at hset
  case h_2 => cases hset
  case h_1 next hnext =>
    cases hset
    exact hc.set? (hfits _ hmem) (fun hkey ↦ hweights value (hkey ▸ hmem)) hnext

theorem lookup_of_mem (h : (entries.map (·.1)).Nodup) (hmem : (key, value) ∈ entries) :
    entries.lookup key = some value := by
  induction entries with
  | nil => cases hmem
  | cons entry entries ih =>
    rw [List.map_cons, List.nodup_cons] at h
    rcases List.mem_cons.mp hmem with rfl | hmem
    · exact List.lookup_cons_self
    · have hne : key ≠ entry.1 := by
        rintro rfl
        exact h.1 (List.mem_map.mpr ⟨_, hmem, rfl⟩)
      rw [show entry = (entry.1, entry.2) from rfl, List.lookup_cons, beq_false_of_ne hne]
      exact ih h.2 hmem

theorem checkKind_eq_ok {kinds : List ValueKind} :
    checkKind key kinds value = .ok () ↔ kinds.any (·.holds value) = true := by
  rw [checkKind]
  split <;> simp_all

theorem kinded_of_ofEntries (hkeys : (entries.map (·.1)).Nodup) (h : ofEntries entries = .ok c) :
    c.Kinded := by
  obtain ⟨⟨⟩, -, h⟩ := Outcome.bind_eq_ok.mp h
  obtain ⟨⟨⟩, hkinds, h⟩ := Outcome.bind_eq_ok.mp h
  obtain ⟨⟨⟩, hweights, h⟩ := Outcome.bind_eq_ok.mp h
  rw [Outcome.mapError_eq_ok] at hkinds hweights h
  rw [Outcome.forM_eq_ok] at hkinds
  refine kinded_default.setAll ?_ (fun value hmem ↦ ?_) h
  · rintro entry hentry ⟨key, kinds⟩ hsetting rfl
    have hcheck := hkinds (entry.1, kinds) hsetting
    dsimp only at hcheck
    rw [lookup_of_mem hkeys hentry] at hcheck
    exact checkKind_eq_ok.mp hcheck
  · rwa [lookup_of_mem hkeys hmem] at hweights

/-! ## What the kinds say -/

theorem exists_int_of_holds (h : [ValueKind.int].any (·.holds value) = true) :
    ∃ n, value = .int n := by
  cases value with
  | int n => exact ⟨n, rfl⟩
  | _ => cases h

private theorem exists_text_of_holds (h : [ValueKind.text].any (·.holds value) = true) :
    ∃ s, value = .str s := by
  cases value with
  | str s => exact ⟨s, rfl⟩
  | _ => cases h

namespace Kinded

theorem policy (hc : c.Kinded) : ∃ p, c.policy = .str p :=
  exists_text_of_holds (hc.fits ("policy", c.policy) (by simp [fields]) ("policy", [.text])
    (by decide) rfl)

theorem maxIterations (hc : c.Kinded) : ∃ n, c.maxIterations = .int n :=
  exists_int_of_holds (hc.fits ("max_iterations", c.maxIterations) (by simp [fields])
    ("max_iterations", [.int]) (by decide) rfl)

theorem wideningDelay (hc : c.Kinded) : ∃ n, c.wideningDelay = .int n :=
  exists_int_of_holds (hc.fits ("widening_delay", c.wideningDelay) (by simp [fields])
    ("widening_delay", [.int]) (by decide) rfl)

theorem inputBits (hc : c.Kinded) : ∃ n, c.inputBits = .int n :=
  exists_int_of_holds (hc.fits ("default_input_bits", c.inputBits) (by simp [fields])
    ("default_input_bits", [.int]) (by decide) rfl)

end Kinded

/-! ## No warnings -/

private theorem of_warnings_eq_nil (h : c.warnings = .ok []) :
    c.maxIterations.compare .less (.int 1) = .ok false ∧
    c.wideningDelay.compare .less (.int 0) = .ok false ∧
    (∃ entries, c.weightEntries = .ok entries ∧
      ∀ entry ∈ entries, weightWarning entry.1 entry.2 = .ok []) ∧
    isSeverity c.severity = .ok true := by
  unfold warnings at h
  obtain ⟨clock, hclock, h⟩ := Outcome.bind_eq_ok.mp h
  obtain ⟨unitTime, hunitTime, h⟩ := Outcome.bind_eq_ok.mp h
  obtain ⟨limit, hlimit, h⟩ := Outcome.bind_eq_ok.mp h
  obtain ⟨delay, hdelay, h⟩ := Outcome.bind_eq_ok.mp h
  obtain ⟨late, hlate, h⟩ := Outcome.bind_eq_ok.mp h
  obtain ⟨entries, hentries, h⟩ := Outcome.bind_eq_ok.mp h
  obtain ⟨weights, hweights, h⟩ := Outcome.bind_eq_ok.mp h
  obtain ⟨severity, hseverity, h⟩ := Outcome.bind_eq_ok.mp h
  have hnil := Except.ok.inj h
  simp only [List.append_eq_nil_iff, ite_eq_right_iff, List.cons_ne_nil, imp_false,
    Bool.not_eq_true, Bool.not_eq_false', List.flatten_eq_nil_iff] at hnil
  obtain ⟨⟨⟨⟨⟨⟨⟨-, -⟩, rfl⟩, rfl⟩, -⟩, -⟩, hnone⟩, rfl⟩ := hnil
  refine ⟨hlimit, hdelay, ⟨entries, hentries, fun entry hentry ↦ ?_⟩, hseverity⟩
  obtain ⟨warning, hmem, hwarning⟩ :=
    Outcome.exists_mem_of_forall₂ (Outcome.mapM_eq_ok.mp hweights) hentry
  rw [hnone warning hmem] at hwarning
  exact hwarning

/-! ## The parts of a run -/

private theorem exists_findingSeverity (h : isSeverity c.severity = .ok true) :
    ∃ severity, c.findingSeverity = .ok severity := by
  rw [findingSeverity]
  by_cases helevate : c.elevate.isTrue = true
  · exact ⟨_, if_pos helevate⟩
  · rw [if_neg helevate]
    cases hseverity : c.severity with
    | str name =>
      rw [hseverity, isSeverity] at h
      obtain ⟨severity, hname⟩ := Option.isSome_iff_exists.mp (Except.ok.inj h)
      exact ⟨severity, by simp only [hname]⟩
    | _ =>
      rw [hseverity] at h
      cases h

private theorem exists_replacement {name : String} {weight : Json}
    (hkind : checkKind key [.int] weight = .ok ()) (h : weightWarning name weight = .ok []) :
    ∃ kind n, replacement name weight = .ok (kind, n) ∧ 0 ≤ n := by
  obtain ⟨n, rfl⟩ := exists_int_of_holds (checkKind_eq_ok.mp hkind)
  unfold weightWarning at h
  cases hname : Kind.ofName? name with
  | none =>
    rw [hname] at h
    cases h
  | some kind =>
    rw [hname, Option.isNone_some, if_neg Bool.false_ne_true, compare_less_int] at h
    refine ⟨kind, n, ?_, ?_⟩
    · unfold replacement
      rw [hname]
      rfl
    · by_contra hneg
      rw [decide_eq_true (not_le.mp hneg)] at h
      cases h

private theorem weights_of_weightEntries (h : c.weightEntries = .ok entries) :
    c.weights = .obj entries := by
  unfold weightEntries at h
  cases hweights : c.weights with
  | obj entries' =>
    rw [hweights] at h
    exact congrArg _ (Except.ok.inj h)
  | _ =>
    rw [hweights] at h
    cases h

private theorem exists_table (hkinds : checkWeights c.weights = .ok ())
    (hentries : c.weightEntries = .ok entries)
    (hnone : ∀ entry ∈ entries, weightWarning entry.1 entry.2 = .ok []) :
    ∃ table, c.table = .ok table := by
  rw [weights_of_weightEntries hentries, checkWeights, Outcome.forM_eq_ok] at hkinds
  have hreplacement : ∀ entry ∈ entries, ∃ kind n,
      replacement entry.1 entry.2 = .ok (kind, n) ∧ 0 ≤ n :=
    fun entry hentry ↦ exists_replacement (hkinds entry hentry) (hnone entry hentry)
  obtain ⟨weights, hweights⟩ : ∃ weights,
      entries.mapM (fun entry ↦ replacement entry.1 entry.2) = .ok weights := by
    refine Outcome.exists_mapM_eq_ok fun entry hentry ↦ ?_
    obtain ⟨kind, n, heq, -⟩ := hreplacement entry hentry
    exact ⟨_, heq⟩
  have hnonneg : ∀ weight ∈ weights, 0 ≤ weight.2 := by
    intro weight hweight
    obtain ⟨entry, hentry, heq⟩ := (Outcome.mem_iff_of_mapM_eq_ok hweights).mp hweight
    obtain ⟨kind, n, heq', hn⟩ := hreplacement entry hentry
    cases heq.symm.trans heq'
    exact hn
  obtain ⟨made, hmade⟩ := WeightTable.exists_make_setWeights WeightTable.default.complete
    WeightTable.default.nonneg hnonneg
  refine ⟨made, Outcome.bind_eq_ok.mpr ⟨entries, Outcome.mapError_eq_ok.mpr hentries, ?_⟩⟩
  exact Outcome.bind_eq_ok.mpr ⟨weights, hweights, Outcome.mapError_eq_ok.mpr hmade⟩

private theorem exists_tuning_iff {m d b : Int} (hm : c.maxIterations = .int m)
    (hd : c.wideningDelay = .int d) (hb : c.inputBits = .int b) (hlimit : 1 ≤ m) (hdelay : 0 ≤ d) :
    (∃ tuning, c.tuning = .ok tuning) ↔ 1 ≤ b := by
  rw [tuning, Knobs.check, knobs, hm, hd, hb, Knobs.refuseBelow_int, Knobs.refuseBelow_int,
    Knobs.refuseBelow_int, if_neg (not_lt.mpr hlimit), if_neg (not_lt.mpr hdelay)]
  by_cases hbits : 1 ≤ b
  · refine iff_of_true ⟨⟨m, d, b, c.inputSigned.isTrue, hlimit, hdelay, hbits⟩, ?_⟩ hbits
    rw [if_neg (not_lt.mpr hbits)]
    refine Outcome.mapError_eq_ok.mpr ?_
    rw [Tuning.make, dif_pos hlimit, dif_pos hdelay, dif_pos hbits]
  · refine iff_of_false ?_ hbits
    rw [if_pos (not_le.mp hbits)]
    rintro ⟨tuning, htuning⟩
    cases htuning

/-! ## Usable configurations -/

/-- **A configuration without warnings** has a severity and a table of weights. Its knobs, its
policy and its platform can be built exactly if an input has a bit, if the name of the policy is
right and a strict one has a positive margin, and if the clock and the time of a unit are finite and
in range. -/
theorem usable_of_warnings_eq_nil (hkeys : (entries.map (·.1)).Nodup)
    (h : ofDocument (.obj entries) = .ok c) (hnone : c.warnings = .ok []) :
    (∃ severity, c.findingSeverity = .ok severity) ∧ (∃ table, c.table = .ok table) ∧
    ((∃ tuning, c.tuning = .ok tuning) ↔ ∃ bits, c.inputBits = .int bits ∧ 1 ≤ bits) ∧
    ((∃ policy, c.gatePolicy = .ok policy) ↔ ∃ name, c.policy = .str name ∧
      (normalName name = "warn" ∨ normalName name = "error" ∨
        name = "strict" ∧ ∃ m, c.margin.number? = some m ∧ Extended.zero.lt m.value = true)) ∧
    ((∃ platform, c.platform = .ok platform) ↔ ∃ f u, Platform.exact c.clock = .ok f ∧
      Platform.exact c.unitTime = .ok u ∧ Double.InRange (1000 / f) ∧ Double.InRange u) := by
  have hkinded := kinded_of_ofEntries hkeys h
  obtain ⟨hlimit, hdelay, ⟨weights, hweights, hwarnings⟩, hseverity⟩ := of_warnings_eq_nil hnone
  obtain ⟨p, hp⟩ := hkinded.policy
  obtain ⟨m, hm⟩ := hkinded.maxIterations
  obtain ⟨d, hd⟩ := hkinded.wideningDelay
  obtain ⟨b, hb⟩ := hkinded.inputBits
  rw [hm] at hlimit
  rw [hd] at hdelay
  refine ⟨exists_findingSeverity hseverity, exists_table hkinded.weights hweights hwarnings,
    ?_, ?_, Platform.exists_ofClock_iff⟩
  · rw [exists_tuning_iff hm hd hb (le_of_compare_less_int hlimit) (le_of_compare_less_int hdelay),
      hb]
    simp
  · rw [exists_gatePolicy_iff hp, hp]
    simp

/-- A strict run in which products are slow. -/
def strictEntries : List (String × Json) :=
  [("policy", .str "strict"), ("margin_ns", .real (Double.ofRat (1 / 2))),
    ("weights", .obj [("mul", .int 3)])]

theorem usable_strict : ∃ c, ofDocument (.obj strictEntries) = .ok c ∧ c.warnings = .ok [] ∧
    (∃ severity, c.findingSeverity = .ok severity) ∧ (∃ table, c.table = .ok table) ∧
    (∃ tuning, c.tuning = .ok tuning) ∧ (∃ policy, c.gatePolicy = .ok policy) ∧
    ∃ platform, c.platform = .ok platform := by
  obtain ⟨c, hc⟩ : ∃ c, ofDocument (.obj strictEntries) = .ok c := ⟨_, rfl⟩
  obtain ⟨found, hfound, hempty⟩ := Outcome.exists_of_any
    (show ((ofDocument (.obj strictEntries) >>= fun c ↦ c.warnings.mapError .mishap)).toOption.any
      List.isEmpty = true by decide +kernel)
  have hnone : c.warnings = .ok [] := by
    rw [hc, Outcome.ok_bind, Outcome.mapError_eq_ok, List.isEmpty_iff.mp hempty] at hfound
    exact hfound
  obtain ⟨hseverity, htable, htuning, hpolicy, hplatform⟩ :=
    usable_of_warnings_eq_nil (by decide) hc hnone
  cases hc
  refine ⟨_, rfl, hnone, hseverity, htable, htuning.mpr ⟨32, rfl, by decide⟩,
    hpolicy.mpr ⟨"strict", rfl, Or.inr (Or.inr ⟨rfl, _, rfl, by decide +kernel⟩)⟩,
    hplatform.mpr ⟨25, 8 / 5, ?_, ?_, ?_, ?_⟩⟩
  · exact Platform.exact_eq_ok.mpr (by decide +kernel)
  · exact Platform.exact_eq_ok.mpr (by decide +kernel)
  · exact Double.inRange_of_one_le (by norm_num) (by norm_num)
  · exact Double.inRange_of_one_le (by norm_num) (by norm_num)

theorem exists_unnoticed {α : Type} {document : Json} {part : Config → Except Refusal α}
    (h : (ofDocument document).toOption.any (fun c ↦
      c.warnings.toOption.any List.isEmpty && !(part c).isOk) = true) :
    ∃ c, ofDocument document = .ok c ∧ c.warnings = .ok [] ∧ ∀ a, part c ≠ .ok a := by
  obtain ⟨c, hc, hparts⟩ := Outcome.exists_of_any h
  rw [Bool.and_eq_true, Bool.not_eq_true'] at hparts
  obtain ⟨found, hfound, hempty⟩ := Outcome.exists_of_any hparts.1
  refine ⟨c, hc, by rw [hfound, List.isEmpty_iff.mp hempty], fun a ha ↦ ?_⟩
  rw [ha] at hparts
  cases hparts.2

/-- No warning is given of a policy that does not exist, a width of zero, or a clock that is not a
number. -/
theorem unnoticed_settings :
    (∃ c, ofDocument (.obj [("policy", .str "bogus")]) = .ok c ∧ c.warnings = .ok [] ∧
      ∀ policy, c.gatePolicy ≠ .ok policy) ∧
    (∃ c, ofDocument (.obj [("default_input_bits", .int 0)]) = .ok c ∧ c.warnings = .ok [] ∧
      ∀ tuning, c.tuning ≠ .ok tuning) ∧
    ∃ c, ofDocument (.obj [("clock_mhz", .real (.nan 0))]) = .ok c ∧ c.warnings = .ok [] ∧
      ∀ platform, c.platform ≠ .ok platform :=
  ⟨exists_unnoticed (by decide +kernel), exists_unnoticed (by decide +kernel),
    exists_unnoticed (by decide +kernel)⟩

end Config

end Datapath
