import Mathlib.Logic.Basic

/-!
# Computations With a Log

A computation that may fail and that writes a log as it goes. What it has
logged when it fails stays logged, so the log is beside the result and not in
it.

`follow` goes on from a result, and from a failure under another description of
it. The result of what follows does not depend on the log, which is
`result_follow`: a program written with `follow` does what it would do without
its log.

## Main definitions

* `Logged`: A log and a result.
* `Logged.follow`: Going on from a result.

## Theorems

* `result_follow`, `log_follow_ok`: The two parts of what follows.
* `log_follow_nil`: When nothing is logged.
-/

universe u₁ u₂ u₃ u₄ u₅

/-- A log and a result. The log is there also if the result is a failure. -/
structure Logged (η : Type u₁) (ε : Type u₂) (α : Type u₃) where
  log : List η
  result : Except ε α

namespace Logged

variable {η : Type u₁} {ε : Type u₂} {α : Type u₃} {β : Type u₄} {ε' : Type u₅}

/-- A result, and nothing logged. -/
def done (a : α) : Logged η ε α := ⟨[], .ok a⟩

/-- A failure, and nothing logged. -/
def fail (e : ε) : Logged η ε α := ⟨[], .error e⟩

/-- Go on from the result, with the log of both parts. A failure is passed on as
    `fault` describes it, and nothing is logged after it. -/
def follow (x : Logged η ε α) (fault : ε → ε') (k : α → Logged η ε' β) : Logged η ε' β where
  log := match x.result with
    | .error _ => x.log
    | .ok a => x.log ++ (k a).log
  result := match x.result with
    | .error e => .error (fault e)
    | .ok a => (k a).result

/-- A computation that is done has its result. -/
@[simp] theorem result_done (a : α) : (done a : Logged η ε α).result = .ok a := rfl

/-- A computation that is done has logged nothing. -/
@[simp] theorem log_done (a : α) : (done a : Logged η ε α).log = [] := rfl

/-- The result of what follows depends on the results, and not on what was
    logged. -/
theorem result_follow (x : Logged η ε α) (fault : ε → ε') (k : α → Logged η ε' β) :
    (x.follow fault k).result = match x.result with
      | .error e => .error (fault e)
      | .ok a => (k a).result := rfl

/-- After a result it is that of the second part. -/
theorem result_follow_ok (x : Logged η ε α) (fault : ε → ε') (k : α → Logged η ε' β) (a : α)
    (h : x.result = .ok a) : (x.follow fault k).result = (k a).result := by
  rw [result_follow, h]

/-- After a result, the second log is behind the first. -/
theorem log_follow_ok (x : Logged η ε α) (fault : ε → ε') (k : α → Logged η ε' β) (a : α)
    (h : x.result = .ok a) : (x.follow fault k).log = x.log ++ (k a).log := by
  simp only [follow, h]

/-- Where neither part logs anything, nothing is logged. -/
theorem log_follow_nil (x : Logged η ε α) (fault : ε → ε') (k : α → Logged η ε' β)
    (h : x.log = []) (hk : ∀ a, (k a).log = []) : (x.follow fault k).log = [] := by
  simp only [follow, h, List.nil_append]
  cases x.result with
  | error e => rfl
  | ok a => exact hk a

end Logged
