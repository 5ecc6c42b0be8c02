import Mathlib.Logic.Basic

/-!
# Machines and Their Specifications

A machine takes operations one at a time, answers each with an output and may
fault; a specification takes the same operations and cannot fault. This module
is about whole runs of the two side by side.

A specification says which operations its caller may issue in a state, and
`Simulation` is the step-by-step obligation: from related states, an operation
the caller may issue makes the machine answer as the specification does and
leaves the two related. `Simulation.run` carries that over runs of any length,
so a refinement is proved by looking at one step.

`Sound` asks less and `Sound.run` gives less: whatever the machine completes,
it completes as the specification says, while a fault stays possible. It is
the form for a machine that has inputs it does not survive.

## Main definitions

* `run`: The machine over a list of operations.
* `specRun`: The specification over a list of operations.
* `Admissible`: Every operation is one the caller may issue.
* `Simulation`: Related states answer alike and stay related.
* `Sound`: Completed steps answer alike and stay related.

## Theorems

* `Simulation.run`: An admissible run completes with the specified outputs.
* `Sound.run`: A completed run has the specified outputs.
* `admissible_of_forall`: Obligations that do not depend on the state.
* `specRun_getElem?`: An answer depends on the operations before it.
* `specRun_marked`: Operations that change nothing can be left out.
* `run_map`: Operations in place of others that do the same.
* `run_cons_ok`: A completed run has completed its first step.
* `run_append_ok`: Completed runs one after the other.
* `run_invariant`: What completed steps keep, completed runs keep.
-/

universe u₁ u₂ u₃ u₄ u₅ u₆

namespace Machine

variable {σ : Type u₁} {τ : Type u₂} {ω : Type u₃} {ο : Type u₄} {ε : Type u₅}

/-- Run the operations in order and collect the outputs. A fault ends the run,
    and there are no outputs of it then. -/
def run (step : σ → ω → Except ε (σ × ο)) : σ → List ω → Except ε (σ × List ο)
  | s, [] => .ok (s, [])
  | s, op :: ops => match step s op with
    | .error e => .error e
    | .ok (s', o) => match run step s' ops with
      | .error e => .error e
      | .ok (s'', os) => .ok (s'', o :: os)

/-- Run the operations through a specification, which always answers. -/
def specRun (spec : τ → ω → τ × ο) : τ → List ω → τ × List ο
  | t, [] => (t, [])
  | t, op :: ops => ((specRun spec (spec t op).1 ops).1, (spec t op).2 ::
      (specRun spec (spec t op).1 ops).2)

/-- Every operation is one the caller may issue where it is issued. -/
def Admissible (spec : τ → ω → τ × ο) (may : τ → ω → Prop) : τ → List ω → Prop
  | _, [] => True
  | t, op :: ops => may t op ∧ Admissible spec may (spec t op).1 ops

/-- From related states an admissible operation gets the specified answer and
    leaves the states related. -/
def Simulation (step : σ → ω → Except ε (σ × ο)) (spec : τ → ω → τ × ο)
    (may : τ → ω → Prop) (R : σ → τ → Prop) : Prop :=
  ∀ s t op, R s t → may t op →
    ∃ s', step s op = .ok (s', (spec t op).2) ∧ R s' (spec t op).1

/-- From related states an admissible operation that completes gets the
    specified answer and leaves the states related. -/
def Sound (step : σ → ω → Except ε (σ × ο)) (spec : τ → ω → τ × ο)
    (may : τ → ω → Prop) (R : σ → τ → Prop) : Prop :=
  ∀ s t op s' o, R s t → may t op → step s op = .ok (s', o) →
    o = (spec t op).2 ∧ R s' (spec t op).1

/-- Where the caller's freedom does not depend on the state, it is enough to
    look at each operation alone. -/
theorem admissible_of_forall (spec : τ → ω → τ × ο) (P : ω → Prop) (ops : List ω) (t : τ)
    (h : ∀ op ∈ ops, P op) : Admissible spec (fun _ => P) t ops := by
  induction ops generalizing t with
  | nil => exact trivial
  | cons op ops ih =>
      rw [List.forall_mem_cons] at h
      exact ⟨h.1, ih _ h.2⟩

/-- The answer to an operation depends on the operations before it and on no
    later one. -/
theorem specRun_getElem? (spec : τ → ω → τ × ο) (ops : List ω) (t : τ) (i : Nat) (op : ω)
    (h : ops[i]? = some op) :
    (specRun spec t ops).2[i]? = some (spec (specRun spec t (ops.take i)).1 op).2 := by
  induction ops generalizing t i with
  | nil => simp only [List.getElem?_nil, reduceCtorEq] at h
  | cons op' ops ih =>
      -- The position is the first one, or one of the rest of the run.
      cases i with
      | zero =>
          rw [List.getElem?_cons_zero, Option.some.injEq] at h
          rw [specRun, List.getElem?_cons_zero, h, List.take_zero, specRun]
      | succ i =>
          rw [List.getElem?_cons_succ] at h
          rw [specRun, List.getElem?_cons_succ, ih _ i h, List.take_succ_cons, specRun]

/-- Each operation of a run has an answer. -/
theorem length_specRun (spec : τ → ω → τ × ο) (ops : List ω) (t : τ) :
    (specRun spec t ops).2.length = ops.length := by
  induction ops generalizing t with
  | nil => rfl
  | cons op ops ih => rw [specRun, List.length_cons, List.length_cons, ih]

/-- Of a run with a mark at each operation, those that are not marked may be left
    out if they change nothing: the others are answered as before. -/
theorem specRun_marked (spec : τ → ω → τ × ο) (marked : List (ω × Bool))
    (h : ∀ p ∈ marked, p.2 = false → ∀ t, (spec t p.1).1 = t) (t : τ) :
    (specRun spec t ((marked.filter Prod.snd).map Prod.fst)).2 =
      ((marked.zip (specRun spec t (marked.map Prod.fst)).2).filter fun q => q.1.2).map
        Prod.snd := by
  induction marked generalizing t with
  | nil => rfl
  | cons p marked ih =>
      rcases p with ⟨op, mark⟩
      rw [List.forall_mem_cons] at h
      rw [List.map_cons, specRun, List.zip_cons_cons, List.filter_cons, List.filter_cons]
      cases mark with
      -- A marked operation is in both runs.
      | true =>
          simp only [if_true]
          rw [List.map_cons, List.map_cons, specRun, ih h.2]
      -- One that is not marked is in one of them, where it changes nothing.
      | false =>
          simp only [Bool.false_eq_true, if_false]
          rw [h.1 rfl t, ih h.2]

/-- Where each operation does what another one does on another machine, the
    machines run alike. -/
theorem run_map {ω' : Type u₆} (step : σ → ω → Except ε (σ × ο))
    (step' : σ → ω' → Except ε (σ × ο)) (f : ω → ω') (ops : List ω)
    (h : ∀ op ∈ ops, ∀ s, step s op = step' s (f op)) (s : σ) :
    run step s ops = run step' s (ops.map f) := by
  induction ops generalizing s with
  | nil => rfl
  | cons op ops ih =>
      rw [List.forall_mem_cons] at h
      rw [List.map_cons, run, run, h.1 s]
      cases step' s (f op) with
      | error e => rfl
      | ok p => simp only [ih h.2]

/-- A run that completes has completed its first step, and the rest of the run
    from the state that this step has left. -/
theorem run_cons_ok (step : σ → ω → Except ε (σ × ο)) (s : σ) (op : ω) (ops : List ω) (s' : σ)
    (os : List ο) (h : run step s (op :: ops) = .ok (s', os)) :
    ∃ s₁ o os', step s op = .ok (s₁, o) ∧ run step s₁ ops = .ok (s', os') ∧ os = o :: os' := by
  rw [run] at h
  -- Neither the step nor the rest of the run can have been a fault.
  cases hstep : step s op with
  | error e => simp only [hstep, reduceCtorEq] at h
  | ok p =>
      rcases p with ⟨s₁, o⟩
      cases hrest : run step s₁ ops with
      | error e => simp only [hstep, hrest, reduceCtorEq] at h
      | ok q =>
          rcases q with ⟨s₂, os'⟩
          simp only [hstep, hrest, Except.ok.injEq, Prod.mk.injEq] at h
          rcases h with ⟨rfl, rfl⟩
          exact ⟨s₁, o, os', rfl, hrest, rfl⟩

/-- Completed runs one after the other are a completed run. -/
theorem run_append_ok (step : σ → ω → Except ε (σ × ο)) (xs ys : List ω) (s s' s'' : σ)
    (os os' : List ο) (hx : run step s xs = .ok (s', os)) (hy : run step s' ys = .ok (s'', os')) :
    run step s (xs ++ ys) = .ok (s'', os ++ os') := by
  induction xs generalizing s os with
  | nil =>
      simp only [run, Except.ok.injEq, Prod.mk.injEq] at hx
      rcases hx with ⟨rfl, rfl⟩
      exact hy
  | cons x xs ih =>
      -- The first step is that of the whole run.
      rcases run_cons_ok step s x xs s' os hx with ⟨s₁, o, os₁, hfirst, hrest, rfl⟩
      simp only [List.cons_append, run, hfirst, ih s₁ os₁ hrest]

/-- What every completed step keeps, every completed run keeps. -/
theorem run_invariant (step : σ → ω → Except ε (σ × ο)) (P : σ → Prop)
    (hstep : ∀ s op s' o, P s → step s op = .ok (s', o) → P s') (ops : List ω) (s : σ) (hs : P s)
    (s' : σ) (os : List ο) (h : run step s ops = .ok (s', os)) : P s' := by
  induction ops generalizing s os with
  | nil =>
      simp only [run, Except.ok.injEq, Prod.mk.injEq] at h
      rcases h with ⟨rfl, rfl⟩
      exact hs
  | cons op ops ih =>
      -- The first step keeps it, and the rest of the run starts from there.
      rcases run_cons_ok step s op ops s' os h with ⟨s₁, o, os', hfirst, hrest, -⟩
      exact ih s₁ (hstep s op s₁ o hs hfirst) os' hrest

/-- What every completed step keeps of a state and of what is noted about the
    operations, every completed run keeps. -/
theorem run_noted (step : σ → ω → Except ε (σ × ο)) (note : τ → ω → τ) (P : σ → τ → Prop)
    (hstep : ∀ s t op s' o, P s t → step s op = .ok (s', o) → P s' (note t op)) (ops : List ω)
    (s : σ) (t : τ) (hs : P s t) (s' : σ) (os : List ο) (h : run step s ops = .ok (s', os)) :
    P s' (ops.foldl note t) := by
  induction ops generalizing s t os with
  | nil =>
      simp only [run, Except.ok.injEq, Prod.mk.injEq] at h
      rcases h with ⟨rfl, rfl⟩
      exact hs
  | cons op ops ih =>
      -- The first step keeps it, with the operation noted.
      rcases run_cons_ok step s op ops s' os h with ⟨s₁, o, os', hfirst, hrest, -⟩
      rw [List.foldl_cons]
      exact ih s₁ _ (hstep s t op s₁ o hs hfirst) os' hrest

section Runs

variable {step : σ → ω → Except ε (σ × ο)} {spec : τ → ω → τ × ο}
  {may : τ → ω → Prop} {R : σ → τ → Prop}

/-- An admissible run completes, with the specified outputs and in a related
    state. The relation is what one step hands on to the next. -/
theorem Simulation.run (hsim : Simulation step spec may R) (ops : List ω) (s : σ) (t : τ)
    (hR : R s t) (hadm : Admissible spec may t ops) :
    ∃ s', Machine.run step s ops = .ok (s', (specRun spec t ops).2) ∧
      R s' (specRun spec t ops).1 := by
  induction ops generalizing s t with
  | nil => exact ⟨s, rfl, hR⟩
  | cons op ops ih =>
      rcases hsim s t op hR hadm.1 with ⟨s₁, hstep, hR₁⟩
      rcases ih s₁ _ hR₁ hadm.2 with ⟨s₂, hrun, hR₂⟩
      refine ⟨s₂, ?_, hR₂⟩
      simp only [Machine.run, hstep, hrun, specRun]

/-- A run that completes has the specified outputs and ends in a related
    state. -/
theorem Sound.run (hsound : Sound step spec may R) (ops : List ω) (s : σ) (t : τ)
    (hR : R s t) (hadm : Admissible spec may t ops) (s' : σ) (os : List ο)
    (hrun : Machine.run step s ops = .ok (s', os)) :
    os = (specRun spec t ops).2 ∧ R s' (specRun spec t ops).1 := by
  induction ops generalizing s t os with
  | nil =>
      simp only [Machine.run, Except.ok.injEq, Prod.mk.injEq] at hrun
      rcases hrun with ⟨rfl, rfl⟩
      exact ⟨rfl, hR⟩
  | cons op ops ih =>
      simp only [Machine.run] at hrun
      cases hstep : step s op with
      | error e => simp only [hstep, reduceCtorEq] at hrun
      | ok p =>
          rcases p with ⟨s₁, o⟩
          rcases hsound s t op s₁ o hR hadm.1 hstep with ⟨rfl, hR₁⟩
          cases hrest : Machine.run step s₁ ops with
          | error e => simp only [hstep, hrest, reduceCtorEq] at hrun
          | ok q =>
              rcases q with ⟨s₂, os'⟩
              simp only [hstep, hrest, Except.ok.injEq, Prod.mk.injEq] at hrun
              rcases hrun with ⟨rfl, rfl⟩
              rcases ih s₁ _ hR₁ hadm.2 os' hrest with ⟨rfl, hR₂⟩
              exact ⟨rfl, hR₂⟩

end Runs

end Machine
