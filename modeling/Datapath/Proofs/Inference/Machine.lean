import Datapath.Proofs.Inference.Totality
import Mathlib.Tactic.Linarith

/-!
# Inference on a machine

A machine evaluates the nodes one after another, as exact arithmetic does. Before each evaluation it
is asked whether it can make the integers that come up. As long as it can, nothing is different, and
at the first evaluation that it cannot do it comes to a mishap.

## Two runs, one of them exact

`Follows` says this of two computations and the evaluations that the exact one consists of. It
passes through every way in which inference is put together. For the whole graph the evaluations are
those of `Graph.Performs`, and they are described by exact inference alone: what a machine can do
follows from what it would have to do. What it does infer is therefore right, `infer_of_inferred`.
-/

namespace Datapath

namespace Inference

section Follows

variable {ε ε' α β σ : Type} {m : Machine} {t : Tuning} {cause : Mishap → ε → Prop}
  {performs performs' : Node → List Interval → Prop} {x x' : Except ε α}

/-- The first computation comes to the same as the second if a machine can do all evaluations of the
second. Otherwise it fails, with one that it cannot do as the cause. -/
def Follows (m : Machine) (t : Tuning) (cause : Mishap → ε → Prop)
    (performs : Node → List Interval → Prop) (x x' : Except ε α) : Prop :=
  (x = x' ∧ ∀ n operands, performs n operands → obstacle? m t n operands = none) ∨
    ∃ n operands mishap e, performs n operands ∧ obstacle? m t n operands = some mishap ∧
      cause mishap e ∧ x = .error e

theorem Follows.of_eq (h : x = x') (hnone : ∀ n operands, ¬ performs n operands) :
    Follows m t cause performs x x' :=
  Or.inl ⟨h, fun n operands hperforms ↦ absurd hperforms (hnone n operands)⟩

theorem Follows.congr (h : Follows m t cause performs x x')
    (hiff : ∀ n operands, performs' n operands ↔ performs n operands) :
    Follows m t cause performs' x x' := by
  simpa only [Follows, hiff] using h

theorem Follows.bind {k k' : α → Except ε β} {next : α → Node → List Interval → Prop}
    (hx : Follows m t cause performs x x')
    (hk : ∀ a, x' = .ok a → Follows m t cause (next a) (k a) (k' a)) :
    Follows m t cause (fun n operands ↦ performs n operands ∨ ∃ a, x' = .ok a ∧ next a n operands)
      (x >>= k) (x' >>= k') := by
  rcases hx with ⟨rfl, hnone⟩ | ⟨n, operands, mishap, e, hperforms, hobstacle, hcause, rfl⟩
  · rcases x with e | a
    · refine Or.inl ⟨rfl, ?_⟩
      rintro n operands (hperforms | ⟨a, ha, -⟩)
      · exact hnone n operands hperforms
      · cases ha
    · rcases hk a rfl with ⟨heq, hnone'⟩ | ⟨n, operands, mishap, e, hnext, hobstacle, hcause, heq⟩
      · refine Or.inl ⟨heq, ?_⟩
        rintro n operands (hperforms | ⟨a', ha', hnext⟩)
        · exact hnone n operands hperforms
        · cases ha'
          exact hnone' n operands hnext
      · exact Or.inr ⟨n, operands, mishap, e, Or.inr ⟨a, rfl, hnext⟩, hobstacle, hcause, heq⟩
  · exact Or.inr ⟨n, operands, mishap, e, Or.inl hperforms, hobstacle, hcause, rfl⟩

/-- What is done with the results of both performs nothing. -/
theorem Follows.bind_same (h : Follows m t cause performs x x') (k : α → Except ε β) :
    Follows m t cause performs (x >>= k) (x' >>= k) := by
  have hk : ∀ a, x' = .ok a → Follows m t cause (fun _ _ ↦ False) (k a) (k a) :=
    fun _ _ ↦ .of_eq rfl (by simp)
  exact (h.bind hk).congr (by simp)

/-- What is done with one result performs all that there is. -/
theorem Follows.same_bind {k k' : α → Except ε β} {next : α → Node → List Interval → Prop}
    (x : Except ε α) (hk : ∀ a, x = .ok a → Follows m t cause (next a) (k a) (k' a)) :
    Follows m t cause (fun n operands ↦ ∃ a, x = .ok a ∧ next a n operands)
      (x >>= k) (x >>= k') := by
  have hx : Follows m t cause (fun _ _ ↦ False) x x := .of_eq rfl (by simp)
  exact (hx.bind hk).congr (by simp)

theorem Follows.mapError {cause' : Mishap → ε' → Prop} {f : ε → ε'}
    (h : Follows m t cause performs x x') (hf : ∀ mishap e, cause mishap e → cause' mishap (f e)) :
    Follows m t cause' performs (x.mapError f) (x'.mapError f) := by
  rcases h with ⟨rfl, hnone⟩ | ⟨n, operands, mishap, e, hperforms, hobstacle, hcause, rfl⟩
  · exact Or.inl ⟨rfl, hnone⟩
  · exact Or.inr ⟨n, operands, mishap, f e, hperforms, hobstacle, hf mishap e hcause, rfl⟩

/-- A fold performs what its steps perform, each in the state to which the exact steps before it
lead. -/
theorem Follows.foldlM {f f' : σ → α → Except ε σ} (step : σ → α → Node → List Interval → Prop)
    (h : ∀ s a, Follows m t cause (step s a) (f s a) (f' s a)) (xs : List α) (s : σ) :
    Follows m t cause (fun n operands ↦ ∃ done a rest s', xs = done ++ a :: rest ∧
      done.foldlM f' s = .ok s' ∧ step s' a n operands) (xs.foldlM f s) (xs.foldlM f' s) := by
  induction xs generalizing s with
  | nil => exact .of_eq rfl (by simp)
  | cons a xs ih =>
    rw [List.foldlM_cons, List.foldlM_cons]
    refine ((h s a).bind fun s' _ ↦ ih s').congr fun n operands ↦ ⟨?_, ?_⟩
    · rintro ⟨done, a', rest, s', hsplit, hdone, hstep⟩
      rcases List.cons_eq_append_iff.mp hsplit with ⟨rfl, heq⟩ | ⟨done, rfl, heq⟩
      · cases heq
        cases hdone
        exact Or.inl hstep
      · rw [List.foldlM_cons, Outcome.bind_eq_ok] at hdone
        obtain ⟨s₁, hs₁, hdone⟩ := hdone
        exact Or.inr ⟨s₁, hs₁, done, a', rest, s', heq, hdone, hstep⟩
    · rintro (hstep | ⟨s₁, hs₁, done, a', rest, s', rfl, hdone, hstep⟩)
      · exact ⟨[], a, xs, s, rfl, rfl, hstep⟩
      · refine ⟨a :: done, a', rest, s', rfl, ?_, hstep⟩
        rw [List.foldlM_cons, hs₁]
        exact hdone

end Follows

/-! ## One node -/

variable {m : Machine} {g : Graph} {t : Tuning} {s : State} {loop : FeedbackLoop}

theorem transferOn_follows (env : Env) (values : List (String × Interval)) (n : Node) :
    Follows m t Eq (fun n' operands ↦ n' = n ∧ n.operands.mapM (lookup env) = .ok operands)
      (transferOn m g t env values n) (transfer g t env values n) := by
  rw [transferOn]
  cases hoperands : n.operands.mapM (lookup env) with
  | error mishap =>
    refine .of_eq ?_ (by simp)
    rw [transfer, hoperands]
    rfl
  | ok operands =>
    rw [Outcome.ok_bind]
    cases hobstacle : obstacle? m t n operands with
    | some mishap => exact Or.inr ⟨n, operands, mishap, mishap, ⟨rfl, rfl⟩, hobstacle, rfl, rfl⟩
    | none =>
      refine Or.inl ⟨rfl, ?_⟩
      rintro _ _ ⟨rfl, heq⟩
      rwa [← Except.ok.inj heq]

/-- The evaluation of the node with an id, given the intervals of nodes. -/
def NodePerforms (g : Graph) (env : Env) (id : Int) (n : Node) (operands : List Interval) : Prop :=
  g.node? id = some n ∧ n.operands.mapM (lookup env) = .ok operands

theorem evaluate_follows {α : Type} (env : Env) (values : List (String × Interval)) (id : Int)
    (k : Node → Interval → Except Mishap α) :
    Follows m t Eq (NodePerforms g env id)
      (nodeAt g id >>= fun n ↦ transferOn m g t env values n >>= k n)
      (nodeAt g id >>= fun n ↦ transfer g t env values n >>= k n) := by
  cases hn : g.node? id with
  | none =>
    refine .of_eq ?_ (by simp [NodePerforms, hn])
    rw [nodeAt, hn]
    rfl
  | some n =>
    rw [nodeAt_eq_ok.mpr hn, Outcome.ok_bind, Outcome.ok_bind]
    refine ((transferOn_follows env values n).bind_same (k n)).congr fun n' operands ↦ ?_
    rw [NodePerforms, hn, Option.some_inj, eq_comm]
    exact and_congr_right fun heq ↦ by rw [heq]

/-! ## One loop -/

/-- The evaluations of a loop with its reads at a seed: each node after those before it. -/
def PassPerforms (g : Graph) (t : Tuning) (s : State) (loop : FeedbackLoop) (seed : Interval)
    (n : Node) (operands : List Interval) : Prop :=
  ∃ done id rest env, loop.nodes = done ++ id :: rest ∧
    pass g t s { loop with nodes := done } seed = .ok env ∧ id ∉ loop.reads ∧
    NodePerforms g env id n operands

private theorem passBy_follows (s : State) (loop : FeedbackLoop) (seed : Interval) :
    Follows m t Eq (PassPerforms g t s loop seed)
      (passBy (transferOn m g t) g s loop seed) (pass g t s loop seed) := by
  refine Follows.foldlM (fun env id n operands ↦ id ∉ loop.reads ∧ NodePerforms g env id n operands)
    (fun env id ↦ ?_) loop.nodes s.env
  by_cases hread : id ∈ loop.reads
  · rw [if_pos hread, if_pos hread]
    exact .of_eq rfl (by simp [hread])
  · rw [if_neg hread, if_neg hread]
    refine (evaluate_follows env s.values id _).congr fun n operands ↦ ?_
    simp [hread]

/-- The seeds at which a loop is evaluated, one after another, when at most `fuel` evaluations are
left. -/
inductive Visits (g : Graph) (t : Tuning) (s : State) (loop : FeedbackLoop) (ends : List Int) :
    Nat → Int → Interval → Interval → Prop
  /-- The seed that there is. -/
  | here {fuel : Nat} {iteration : Int} {seed : Interval} :
    Visits g t s loop ends (fuel + 1) iteration seed seed
  /-- A seed of those that it grows to, because something new is written. -/
  | next {fuel : Nat} {iteration : Int} {seed seed' written : Interval} {env : Env} :
    pass g t s loop seed = .ok env → lookup env loop.write = .ok written →
    written.leq seed = false →
    Visits g t s loop ends fuel (iteration + 1) (grow t ends iteration seed written) seed' →
    Visits g t s loop ends (fuel + 1) iteration seed seed'

/-- A mishap of an evaluation, with the histories up to it. -/
def Stopped (mishap : Mishap) (e : Failure) : Prop := ∃ settled, e = .mishap settled mishap

theorem settleBy_succ (evaluate : Evaluator) (s : State) (loop : FeedbackLoop) (ends : List Int)
    (fuel : Nat) (iteration : Int) (seed : Interval) (history : List Interval) :
    settleBy evaluate g t s loop ends (fuel + 1) iteration seed history = (do
      let env ← (passBy evaluate g s loop seed).mapError (Failure.mishap s.histories)
      let written ← (lookup env loop.write).mapError (Failure.mishap s.histories)
      if written.leq seed then .ok (env, history.reverse)
      else
        settleBy evaluate g t s loop ends fuel (iteration + 1)
          (grow t ends iteration seed written)
          (grow t ends iteration seed written :: history)) := by
  rw [settleBy]
  rcases passBy evaluate g s loop seed with cause | env
  · rfl
  · dsimp only [Except.mapError]
    rw [Outcome.ok_bind]
    rcases lookup env loop.write with cause | written <;> rfl

private theorem settleBy_follows (s : State) (loop : FeedbackLoop) (ends : List Int) (fuel : Nat)
    (iteration : Int) (seed : Interval) (history : List Interval) :
    Follows m t Stopped (fun n operands ↦ ∃ seed',
      Visits g t s loop ends fuel iteration seed seed' ∧ PassPerforms g t s loop seed' n operands)
      (settleBy (transferOn m g t) g t s loop ends fuel iteration seed history)
      (settle g t s loop ends fuel iteration seed history) := by
  induction fuel generalizing iteration seed history with
  | zero =>
    refine .of_eq rfl ?_
    rintro n operands ⟨seed', hvisits, -⟩
    cases hvisits
  | succ fuel ih =>
    rw [settle, settleBy_succ, settleBy_succ, ← pass]
    -- the loop is evaluated once, and again only if something new is written
    have hround : ∀ env written, Follows m t Stopped (fun n operands ↦ written.leq seed = false ∧
        ∃ seed', Visits g t s loop ends fuel (iteration + 1)
          (grow t ends iteration seed written) seed' ∧ PassPerforms g t s loop seed' n operands)
        (if written.leq seed then .ok (env, history.reverse)
          else settleBy (transferOn m g t) g t s loop ends fuel (iteration + 1)
            (grow t ends iteration seed written) (grow t ends iteration seed written :: history))
        (if written.leq seed then .ok (env, history.reverse)
          else settle g t s loop ends fuel (iteration + 1)
            (grow t ends iteration seed written)
            (grow t ends iteration seed written :: history)) := by
      intro env written
      by_cases hleq : written.leq seed = true
      · rw [if_pos hleq, if_pos hleq]
        exact .of_eq rfl (by simp [hleq])
      · rw [if_neg hleq, if_neg hleq]
        exact (ih _ _ _).congr (by simp [hleq])
    refine (((passBy_follows s loop seed).mapError fun mishap e h ↦ ?_).bind fun env _ ↦
      .same_bind _ fun written _ ↦ hround env written).congr fun n operands ↦ ⟨?_, ?_⟩
    · exact ⟨s.histories, congrArg _ h.symm⟩
    · rintro ⟨seed', hvisits, hperforms⟩
      cases hvisits with
      | here => exact Or.inl hperforms
      | next hpass hwritten hnew hvisits =>
        exact Or.inr ⟨_, Outcome.mapError_eq_ok.mpr hpass, _, Outcome.mapError_eq_ok.mpr hwritten,
          hnew, seed', hvisits, hperforms⟩
    · rintro (hperforms | ⟨env, hpass, written, hwritten, hnew, seed', hvisits, hperforms⟩)
      · exact ⟨seed, .here, hperforms⟩
      · exact ⟨seed', .next (Outcome.mapError_eq_ok.mp hpass) (Outcome.mapError_eq_ok.mp hwritten)
          hnew hvisits, hperforms⟩

/-- The evaluations by which a loop is solved. -/
def LoopPerforms (g : Graph) (t : Tuning) (s : State) (loop : FeedbackLoop) (n : Node)
    (operands : List Interval) : Prop :=
  ∃ r ends seed, g.register? loop.register = some r ∧ thresholds r = .ok ends ∧
    Visits g t s loop ends t.maxIterations.toNat 1 (Interval.point r.init) seed ∧
    PassPerforms g t s loop seed n operands

private theorem solveLoopBy_follows (s : State) (loop : FeedbackLoop) :
    Follows m t Stopped (LoopPerforms g t s loop)
      (solveLoopBy (transferOn m g t) g t s loop) (solveLoop g t s loop) := by
  refine (Follows.same_bind _ fun r _ ↦ .same_bind _ fun ends _ ↦
    (settleBy_follows s loop ends _ _ _ _).bind_same _).congr fun n operands ↦ ⟨?_, ?_⟩
  · rintro ⟨r, ends, seed, hr, hends, hvisits, hperforms⟩
    exact ⟨r, Outcome.mapError_eq_ok.mpr (declared_eq_ok.mpr hr), ends,
      Outcome.mapError_eq_ok.mpr hends, seed, hvisits, hperforms⟩
  · rintro ⟨r, hr, ends, hends, seed, hvisits, hperforms⟩
    exact ⟨r, ends, seed, declared_eq_ok.mp (Outcome.mapError_eq_ok.mp hr),
      Outcome.mapError_eq_ok.mp hends, hvisits, hperforms⟩

/-! ## The whole graph -/

/-- The evaluations by which a component is solved: that of a node, or those of a loop. -/
inductive ComponentPerforms (g : Graph) (t : Tuning) (loops : List FeedbackLoop) (s : State) :
    List Int → Node → List Interval → Prop
  /-- A node that is in no loop. -/
  | node {id : Int} {n : Node} {operands : List Interval} :
    NodePerforms g s.env id n operands → ComponentPerforms g t loops s [id] n operands
  | loop {id next : Int} {rest : List Int} {loop : FeedbackLoop} {n : Node}
    {operands : List Interval} :
    loops.find? (·.nodes.contains id) = some loop → LoopPerforms g t s loop n operands →
    ComponentPerforms g t loops s (id :: next :: rest) n operands

private theorem solveComponentBy_follows (loops : List FeedbackLoop) (s : State)
    (component : List Int) :
    Follows m t Stopped (ComponentPerforms g t loops s component)
      (solveComponentBy (transferOn m g t) g t loops s component)
      (solveComponent g t loops s component) := by
  rcases component with _ | ⟨id, _ | ⟨next, rest⟩⟩
  · refine .of_eq rfl ?_
    rintro n operands ⟨⟩
  · have hnode : Follows m t Eq (NodePerforms g s.env id) (solveNodeBy (transferOn m g t) g s id)
        (solveNode g t s id) := evaluate_follows s.env s.values id _
    refine (hnode.mapError fun mishap e h ↦ ?_).congr fun n operands ↦ ⟨?_, .node⟩
    · exact ⟨s.histories, congrArg _ h.symm⟩
    · rintro ⟨hnode⟩
      exact hnode
  · rcases hfind : loops.find? (·.nodes.contains id) with _ | loop
    · refine .of_eq (by simp only [solveComponent, solveComponentBy, hfind]) ?_
      rintro n operands (_ | ⟨hfound, -⟩)
      rw [hfind] at hfound
      cases hfound
    · simp only [solveComponent, solveComponentBy, hfind]
      refine (solveLoopBy_follows s loop).congr fun n operands ↦ ⟨?_, .loop hfind⟩
      rintro (_ | ⟨hfound, hperforms⟩)
      rw [hfind] at hfound
      cases hfound
      exact hperforms

end Inference

namespace Graph

/-- The evaluations that exact inference consists of: those of the components, one after another. -/
def Performs (g : Graph) (t : Tuning) (n : Node) (operands : List Interval) : Prop :=
  ∃ layout earlier c later s, g.layout = .ok layout ∧
    layout.components = earlier ++ c :: later ∧
    earlier.foldlM (Inference.solveComponent g t layout.loops) ⟨[], [], []⟩ = .ok s ∧
    Inference.ComponentPerforms g t layout.loops s c n operands

end Graph

namespace Inference

variable {m : Machine} {g : Graph} {t : Tuning}

/-- **A machine infers what exact arithmetic does**, if it can do all evaluations of it. Otherwise
it comes to the mishap of one that it cannot do. -/
theorem inferOn_follows (m : Machine) (g : Graph) (t : Tuning) :
    Follows m t Stopped (g.Performs t) (g.inferOn m t) (g.infer t) := by
  refine (Follows.same_bind _ fun layout _ ↦ (Follows.foldlM _
    (fun s c ↦ solveComponentBy_follows layout.loops s c) layout.components _).bind_same _).congr
    fun n operands ↦ ⟨?_, ?_⟩
  · rintro ⟨layout, earlier, c, later, s, hlayout, heq, hs, hperforms⟩
    exact ⟨layout, Outcome.mapError_eq_ok.mpr hlayout, earlier, c, later, s, heq, hs, hperforms⟩
  · rintro ⟨layout, hlayout, earlier, c, later, s, heq, hs, hperforms⟩
    exact ⟨layout, earlier, c, later, s, Outcome.mapError_eq_ok.mp hlayout, heq, hs, hperforms⟩

/-- **What a machine infers is what exact arithmetic infers.** So whatever holds of the results of
exact inference holds of those of a machine. -/
theorem infer_of_inferred {result : Inference} (h : g.inferred m t = .ok result) :
    g.infer t = .ok result := by
  rw [Graph.inferred] at h
  cases hchecked : g.checked m with
  | error failure =>
    rw [hchecked] at h
    cases h
  | ok known =>
    rw [hchecked] at h
    have hresult : g.inferOn m t = .ok result := Outcome.mapError_eq_ok.mp h
    rcases inferOn_follows m g t with ⟨heq, -⟩ | ⟨_, _, _, e, -, -, -, herror⟩
    · rw [← heq, hresult]
    · rw [hresult] at herror
      cases herror

/-- Why a mishap escapes from inference on a machine. -/
inductive Escapes (m : Machine) (g : Graph) (t : Tuning) : Mishap → Prop
  /-- The range of a register cannot be calculated. -/
  | register {r : Register} {mishap : Mishap} :
    r ∈ g.registers → r.mishap? m = some mishap → Escapes m g t mishap
  /-- A node cannot be evaluated on the intervals that its operands get. -/
  | evaluation {n : Node} {operands : List Interval} {mishap : Mishap} :
    g.Performs t n operands → obstacle? m t n operands = some mishap → Escapes m g t mishap
  /-- An integer in a graph that is not legal cannot be put into words. -/
  | fault {k : Int} : ¬ g.Legal → k ∈ g.integers → m.writes k = false →
    Escapes m g t (.tooLongToWrite m.digits)
  /-- An integer in a divergence cannot be put into words. -/
  | divergence {settled : List (String × List Interval)} {d : Divergence} {k : Int} :
    g.infer t = .error (.diverged settled d) → k ∈ d.integers → m.writes k = false →
    Escapes m g t (.tooLongToWrite m.digits)

private theorem raised_diverged (m : Machine) (d : Divergence) :
    (Datapath.Failure.diverged d).raised m = .diverged d ∨
      (Datapath.Failure.diverged d).raised m = .mishap (.tooLongToWrite m.digits) ∧
        ∃ k ∈ d.integers, m.writes k = false := by
  refine (Failure.raised_cases rfl).imp_right (And.imp_right ?_)
  simp [Divergence.values, Json.integers]

private theorem raised_of_writes {d : Divergence} {k : Int} (hk : k ∈ d.integers)
    (h : m.writes k = false) :
    (Datapath.Failure.diverged d).raised m = .mishap (.tooLongToWrite m.digits) := by
  rw [Failure.raised, Failure.fault, Machine.fault, if_neg]
  rw [List.all_eq_true]
  intro hall
  have hwrites := hall (.int k) (List.mem_map_of_mem hk)
  simp [Json.integers, h] at hwrites

/-- Validation fails for a graph that is not legal, or a mishap escapes from it. -/
theorem outcomes_of_checked_eq_error (hg : g.Coherent) {failure : Datapath.Failure}
    (h : g.checked m = .error failure) :
    (∃ cause, failure.raised m = .malformed cause ∧ ¬ g.Legal) ∨
      ∃ mishap, failure.raised m = .mishap mishap ∧ Escapes m g t mishap := by
  rcases Graph.checked_eq_error hg h with ⟨fault, rfl, hfault⟩ | ⟨mishap, rfl⟩
  · have hillegal := (Graph.diagnosed_of_computeLayout hg hfault).2
    rcases Graph.raised_malformed hg hfault with heq | ⟨heq, k, hk, hwrites⟩
    · exact Or.inl ⟨fault, heq, hillegal⟩
    · exact Or.inr ⟨_, heq, .fault hillegal hk hwrites⟩
  · obtain ⟨-, before, r, after, heq, -, -, hr⟩ := (Graph.checked_eq_mishap_iff hg).mp h
    exact Or.inr ⟨mishap, rfl, .register (by simp [heq]) hr⟩

/-- For a legal graph, exact inference fails at a loop that does not settle. -/
theorem exists_diverged_of_infer_eq_error (hg : g.Coherent) (hlegal : g.Legal) {e : Failure}
    (h : g.infer t = .error e) :
    ∃ settled d, e = .diverged settled d ∧ d.iterations = t.maxIterations ∧
      ∃ c ∈ g.dependencyComponents, ∃ loop, g.IsLoopOf c loop ∧
        d.register = loop.register ∧ d.cycle = loop.nodes := by
  rcases infer_eq_error hg h with
    ⟨cause, rfl, hillegal⟩ | ⟨-, layout, earlier, c, later, s, harranges, heq, hs, hstep⟩
  · exact absurd hlegal hillegal
  · obtain ⟨loop, seeds, hloop, -, rfl⟩ :=
      hs.solveComponent_eq_error hg hlegal harranges heq hstep
    exact ⟨_, _, rfl, rfl, c, by simp [heq], loop, hloop, rfl, rfl⟩

private theorem raised_of_inferOn {known : Graph} {settled : List (String × List Interval)}
    {mishap : Mishap} (hchecked : g.checked m = .ok known)
    (h : g.inferOn m t = .error (.mishap settled mishap)) :
    (g.inferred m t).mapError (·.failure.raised m) = .error (.mishap mishap) := by
  rw [Graph.inferred, hchecked]
  simp only [h]
  rfl

/-- **Inference fails only for a reason.** It has an interval for every node and every register, or
it reports that the graph is not legal, or it reports a loop that does not settle, or a mishap
escapes. A mishap escapes because an integer cannot be made, for a register or in an evaluation, or
because one cannot be put into words, in a fault or a divergence; and an evaluation that cannot be
done is never passed over. -/
theorem inferred_outcomes (h : g.Built) (m : Machine) (t : Tuning) :
    ((∃ result, g.inferred m t = .ok result ∧ result.nodes.map (·.1) = g.ids ∧
      ∀ r ∈ g.registers, ∃ i, result.registers.lookup r.name = some i) ∨
    (∃ cause, (g.inferred m t).mapError (·.failure.raised m) = .error (.malformed cause) ∧
      ¬ g.Legal) ∨
    (∃ d, (g.inferred m t).mapError (·.failure.raised m) = .error (.diverged d) ∧ g.Legal ∧
      d.iterations = t.maxIterations ∧ ∃ c ∈ g.dependencyComponents, ∃ loop, g.IsLoopOf c loop ∧
        d.register = loop.register ∧ d.cycle = loop.nodes) ∨
    ∃ mishap, (g.inferred m t).mapError (·.failure.raised m) = .error (.mishap mishap) ∧
      Escapes m g t mishap) ∧
    (g.Legal → (∀ r ∈ g.registers, r.mishap? m = none) → ∀ n operands, g.Performs t n operands →
      (obstacle? m t n operands).isSome →
        ∃ mishap, (g.inferred m t).mapError (·.failure.raised m) = .error (.mishap mishap)) := by
  have hg := h.coherent
  constructor
  · cases hchecked : g.checked m with
    | error failure =>
      right
      rw [Graph.inferred, hchecked]
      rcases outcomes_of_checked_eq_error hg hchecked with
        ⟨cause, hraised, hillegal⟩ | ⟨mishap, hraised, hescapes⟩
      · exact Or.inl ⟨cause, congrArg _ hraised, hillegal⟩
      · exact Or.inr (Or.inr ⟨mishap, congrArg _ hraised, hescapes⟩)
    | ok known =>
      have hlegal := ((Graph.exists_checked_iff hg m).mp ⟨known, hchecked⟩).1
      rcases inferOn_follows m g t with
        ⟨heq, -⟩ | ⟨n, operands, mishap, e, hperforms, hobstacle, ⟨settled, rfl⟩, heq⟩
      swap
      · right; right; right
        exact ⟨mishap, raised_of_inferOn hchecked heq, .evaluation hperforms hobstacle⟩
      rw [Graph.inferred, hchecked]
      simp only [heq]
      cases hinfer : g.infer t with
      | ok result =>
        obtain ⟨-, hsolution⟩ := solution_of_infer hg hinfer
        refine Or.inl ⟨result, rfl, map_fst_of_infer hinfer, fun r hr ↦ ?_⟩
        obtain ⟨i, hi, -⟩ := hsolution.register r hr
        exact ⟨i, hi⟩
      | error e =>
        right; right
        obtain ⟨settled, d, rfl, hiterations, hloop⟩ :=
          exists_diverged_of_infer_eq_error hg hlegal hinfer
        rcases raised_diverged m d with hraised | ⟨hraised, k, hk, hwrites⟩
        · exact Or.inl ⟨d, congrArg _ hraised, hlegal, hiterations, hloop⟩
        · exact Or.inr ⟨_, congrArg _ hraised, .divergence hinfer hk hwrites⟩
  · intro hlegal hsized n operands hperforms hobstacle
    obtain ⟨known, hchecked⟩ := (Graph.exists_checked_iff hg m).mpr ⟨hlegal, hsized⟩
    rcases inferOn_follows m g t with ⟨-, hnone⟩ | ⟨_, _, mishap, _, -, -, ⟨settled, rfl⟩, heq⟩
    · rw [hnone n operands hperforms] at hobstacle
      cases hobstacle
    · exact ⟨mishap, raised_of_inferOn hchecked heq⟩

/-- The counter has an interval for each of its nodes, and for its register. -/
theorem inferred_counter : ∃ result, Graph.counter.inferred .roomy .default = .ok result ∧
    result.nodes.map (·.1) = Graph.counter.ids ∧
    ∀ r ∈ Graph.counter.registers, ∃ i, result.registers.lookup r.name = some i := by
  have hok := Outcome.exists_of_isOk
    (show (Graph.counter.inferred .roomy .default).isOk = true by decide +kernel)
  rcases (inferred_outcomes Graph.counter_built .roomy .default).1 with
    hresult | ⟨cause, herror, -⟩ | ⟨d, herror, -⟩ | ⟨mishap, herror, -⟩
  · exact hresult
  all_goals
    obtain ⟨result, hresult⟩ := hok
    rw [hresult] at herror
    cases herror

/-! ## Integers out of hand -/

/-- A register without a width that is squared in every cycle. -/
def squaring : Graph :=
  .ofParts [⟨.regRead (.str "r") none, 0⟩, ⟨.binary .mul 0 0 none, 1⟩,
    ⟨.regWrite (.str "r") 1 none, 2⟩] [⟨"r", 10, none, false⟩]

theorem squaring_built : squaring.Built := Graph.built_of_nodup (by decide) (by decide)

theorem layout_squaring :
    squaring.layout = .ok ⟨[0, 1, 2], [[1, 2, 0]], [⟨"r", [0, 1, 2], [0], 2⟩]⟩ := by
  obtain ⟨layout, hlayout, heq⟩ := Outcome.exists_of_any
    (show squaring.layout.toOption.any
      (decide <| · = ⟨[0, 1, 2], [[1, 2, 0]], [⟨"r", [0, 1, 2], [0], 2⟩]⟩) = true by decide +kernel)
  rw [hlayout, of_decide_eq_true heq]

/-- Each evaluation squares the seed. -/
theorem pass_squaring (t : Tuning) (seed : Interval) :
    pass squaring t ⟨[], [], []⟩ ⟨"r", [0, 1, 2], [0], 2⟩ seed =
      .ok [(2, seed.mul seed), (1, seed.mul seed), (0, seed)] := rfl

private theorem mul_from_ten {x : Int} (h : 10 ≤ x) (hsquare : 100 ≤ x * x) :
    (⟨10, x, h⟩ : Interval).mul ⟨10, x, h⟩ = ⟨100, x * x, hsquare⟩ := by
  simp only [Interval.mul, Interval.span, List.foldl_cons, List.foldl_nil, Interval.mk.injEq]
  have : 10 * x ≤ x * x := by nlinarith
  constructor <;> omega

private theorem settle_squaring_succ (t : Tuning) (fuel : Nat) (iteration : Int) {x : Int}
    (h : 10 ≤ x) (hsquare : 10 ≤ x * x) (history : List Interval) :
    settle squaring t ⟨[], [], []⟩ ⟨"r", [0, 1, 2], [0], 2⟩ [] (fuel + 1) iteration
        ⟨10, x, h⟩ (⟨10, x, h⟩ :: history) =
      settle squaring t ⟨[], [], []⟩ ⟨"r", [0, 1, 2], [0], 2⟩ [] fuel (iteration + 1)
        ⟨10, x * x, hsquare⟩ (⟨10, x * x, hsquare⟩ :: ⟨10, x, h⟩ :: history) := by
  have hhundred : 100 ≤ x * x := by nlinarith
  have hlookup : lookup [(2, (⟨10, x, h⟩ : Interval).mul ⟨10, x, h⟩),
      (1, (⟨10, x, h⟩ : Interval).mul ⟨10, x, h⟩), (0, ⟨10, x, h⟩)] 2 =
      .ok ⟨100, x * x, hhundred⟩ := by
    rw [mul_from_ten h hhundred]
    rfl
  have hnew : ¬ (⟨100, x * x, hhundred⟩ : Interval).leq ⟨10, x, h⟩ = true := by
    rw [Interval.leq_iff]
    rintro ⟨-, hle⟩
    dsimp only at hle
    nlinarith
  have hgrow : grow t [] iteration ⟨10, x, h⟩ ⟨100, x * x, hhundred⟩ = ⟨10, x * x, hsquare⟩ := by
    have : x ≤ x * x := by nlinarith
    simp only [grow, List.isEmpty_nil, Bool.not_true, Bool.and_false, Interval.join]
    simp only [Bool.false_eq_true, if_false, Interval.mk.injEq]
    omega
  rw [settle, settleBy_succ, ← pass, pass_squaring]
  dsimp only [Except.mapError]
  rw [Outcome.ok_bind, hlookup, Outcome.ok_bind, if_neg hnew, hgrow, ← settle]

/-- So the seed never covers what is written, and after each evaluation it reaches to the square. -/
theorem settle_squaring (t : Tuning) (fuel : Nat) (iteration : Int) {x : Int} (h : 10 ≤ x)
    (history : List Interval) :
    ∃ d, settle squaring t ⟨[], [], []⟩ ⟨"r", [0, 1, 2], [0], 2⟩ [] fuel iteration ⟨10, x, h⟩
        (⟨10, x, h⟩ :: history) = .error (.diverged [] d) ∧ d.current.hi = x ^ 2 ^ fuel := by
  induction fuel generalizing iteration x history with
  | zero =>
    refine ⟨_, rfl, ?_⟩
    simp [Divergence.current]
  | succ fuel ih =>
    have hsquare : 10 ≤ x * x := by nlinarith
    obtain ⟨d, hd, hcurrent⟩ := ih (iteration + 1) hsquare (⟨10, x, h⟩ :: history)
    refine ⟨d, (settle_squaring_succ t fuel iteration h hsquare history).trans hd, ?_⟩
    rw [hcurrent, ← pow_two, ← pow_mul, pow_succ']

private theorem infer_squaring (t : Tuning) : ∃ d, squaring.infer t = .error (.diverged [] d) ∧
    d.current.hi = 10 ^ 2 ^ t.maxIterations.toNat := by
  obtain ⟨d, hd, hcurrent⟩ := settle_squaring t t.maxIterations.toNat 1 (le_refl 10) []
  refine ⟨d, ?_, hcurrent⟩
  have hloop : solveLoop squaring t ⟨[], [], []⟩ ⟨"r", [0, 1, 2], [0], 2⟩ =
      .error (.diverged [] d) :=
    Outcome.bind_eq_error.mpr (Or.inr ⟨⟨"r", 10, none, false⟩, rfl,
      Outcome.bind_eq_error.mpr (Or.inr ⟨[], rfl, Outcome.bind_eq_error.mpr (Or.inl hd)⟩)⟩)
  rw [Graph.infer, inferBy, layout_squaring]
  exact Outcome.bind_eq_error.mpr (Or.inr ⟨_, rfl, Outcome.bind_eq_error.mpr
    (Or.inl (Outcome.bind_eq_error.mpr (Or.inl hloop)))⟩)

/-- The two ways in which an integer gets out of hand. The range of the wide register cannot be
calculated. The squares of the other register grow until one of them cannot be made, or the
divergence comes first and cannot be put into words. -/
theorem inferred_escapes :
    (Graph.wide.Built ∧ Graph.wide.Legal ∧ ∀ m t,
      (Graph.wide.inferred m t).mapError (·.failure.raised m) = .error (.mishap .tooManyDigits)) ∧
    squaring.Built ∧ squaring.Legal ∧
      ∀ (m : Machine) (t : Tuning), m.digits ≤ 4300 → 13 ≤ t.maxIterations →
        ∃ mishap, (squaring.inferred m t).mapError (·.failure.raised m) =
          .error (.mishap mishap) := by
  have hg := squaring_built.coherent
  have hlegal : squaring.Legal :=
    (Graph.legal_of_computeLayout hg (hg.layout_eq.symm.trans layout_squaring)).1
  refine ⟨⟨Graph.wide_built, Graph.wide_legal, fun m t ↦ ?_⟩, squaring_built, hlegal, ?_⟩
  · rw [Graph.inferred, Graph.checked_eq_of_wide]
    rfl
  · intro m t hdigits hcap
    obtain ⟨known, hchecked⟩ := (Graph.exists_checked_iff hg m).mpr
      ⟨hlegal, by simp [squaring, Register.mishap?]⟩
    rcases inferOn_follows m squaring t with ⟨heq, -⟩ | ⟨_, _, mishap, _, -, -, ⟨settled, rfl⟩, heq⟩
    swap
    · exact ⟨mishap, raised_of_inferOn hchecked heq⟩
    obtain ⟨d, hd, hcurrent⟩ := infer_squaring t
    have hlong : m.digits ≤ 2 ^ t.maxIterations.toNat := by
      have : 2 ^ 13 ≤ 2 ^ t.maxIterations.toNat := Nat.pow_le_pow_right (by decide) (by omega)
      omega
    have hwrites : m.writes d.current.hi = false := by
      rw [hcurrent, Machine.writes, decide_eq_false_iff_not, Int.natAbs_pow, Nat.pow_eq, not_lt]
      exact Nat.pow_le_pow_right (by decide) hlong
    refine ⟨.tooLongToWrite m.digits, ?_⟩
    rw [Graph.inferred, hchecked]
    simp only [heq, hd]
    exact congrArg _ (raised_of_writes (by simp [Divergence.integers]) hwrites)

end Inference

end Datapath
