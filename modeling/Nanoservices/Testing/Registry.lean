import Mathlib.Data.List.Dedup
import Nanoservices.Testing.Report

/-!
# What Runs When Names Clash

The report of `run_tests` for any registrations, with repeated names and in any
number. Under each name the function that was registered first is called, once
and in the order of the names, and what is counted are the names and the calls:
the counts of the report are off by the registrations that came later under a
name, and modulo the width of a counter. There is a report if `what()` of
everything that these functions throw returns, and none otherwise.

## Main definitions

* `FirstUnder`: The function that was registered first under a name.

## Theorems

* `mem_register_iff`: The context holds what was registered first.
* `length_register`: It holds as many functions as there are names.
* `calls_registered`: What a run calls that comes to its end.
* `counts_registered`: How the counts of the report fit together.
* `runTests_registered`: When a program reports, and what it calls and reports.
-/

namespace Nanoservices

namespace Testing

variable {φ σ ε : Type}

/-- The function is the first one that was registered under the name. -/
def FirstUnder (registrations : List (Str × φ)) (name : Str) (func : φ) : Prop :=
  ∃ before after, registrations = before ++ (name, func) :: after ∧ name ∉ before.map Prod.fst

/-- A lookup finds the first pair with the key, if there is one. -/
theorem lookup_eq_some_iff_first {α β : Type} [LinearOrder α] (l : List (α × β)) (a : α)
    (b : β) : l.lookup a = some b ↔
      ∃ before after, l = before ++ (a, b) :: after ∧ a ∉ before.map Prod.fst := by
  rw [List.lookup_eq_some_iff]
  simp only [List.mem_map, not_exists, not_and, bne_iff_ne]
  constructor
  · rintro ⟨before, after, heq, hne⟩
    exact ⟨before, after, heq, fun p hp h => hne p hp h.symm⟩
  · rintro ⟨before, after, heq, hne⟩
    exact ⟨before, after, heq, fun p hp h => hne p hp h.symm⟩

/-- There is something to be found under the keys of the list. -/
theorem exists_lookup_iff {α β : Type} [LinearOrder α] (l : List (α × β)) (a : α) :
    (∃ b, l.lookup a = some b) ↔ a ∈ l.map Prod.fst := by
  rw [← Option.ne_none_iff_exists', ne_eq, List.lookup_eq_none_iff]
  simp only [bne_iff_ne, not_forall, not_not, List.mem_map]
  constructor
  · rintro ⟨p, hp, rfl⟩
    exact ⟨p, hp, rfl⟩
  · rintro ⟨p, hp, rfl⟩
    exact ⟨p, hp, rfl⟩

/-- The context holds under a name what was registered under it first. -/
theorem mem_register_iff (registrations : List (Str × φ)) (name : Str) (func : φ) :
    (name, func) ∈ (register SortedMap.empty registrations).entries ↔
      FirstUnder registrations name func := by
  rw [SortedMap.mem_entries_iff, register_eq, SortedMap.find?_ofList, List.reverse_reverse,
    lookup_eq_some_iff_first]
  exact Iff.rfl

/-- As many functions are in the context as names were used. -/
theorem length_register (registrations : List (Str × φ)) :
    (register SortedMap.empty registrations).entries.length =
      (registrations.map Prod.fst).dedup.length := by
  have hkeys : (register SortedMap.empty registrations).keys.Perm
      (registrations.map Prod.fst).dedup := by
    have hnodup : (register SortedMap.empty registrations).keys.Nodup := SortedMap.keys_nodup _
    rw [List.perm_ext_iff_of_nodup hnodup (List.nodup_dedup _)]
    intro name
    rw [SortedMap.mem_keys_iff, List.mem_dedup, ← exists_lookup_iff, register_eq,
      SortedMap.find?_ofList, List.reverse_reverse]
  have hlength := hkeys.length_eq
  rw [SortedMap.keys, List.length_map] at hlength
  exact hlength

/-- The calls of a run are those of the functions that were registered first, in
    the order of the names. -/
theorem calls_registered (invoke : φ → σ → Outcome × σ) (registrations : List (Str × φ)) (s : σ) :
    let calls := (runTests invoke (register SortedMap.empty registrations) s).calls
    (∀ name func, (name, func) ∈ calls.map (fun call => (call.testName, call.testFunc)) ↔
        FirstUnder registrations name func) ∧
      (calls.map Call.testName).Pairwise (· < ·) := by
  intro calls
  have hentries := (runTests_spec invoke (register SortedMap.empty registrations) s).1
  constructor
  · intro name func
    rw [hentries, mem_register_iff]
  · -- The map is walked in its own order.
    have hsorted := (register SortedMap.empty registrations).sorted
    rw [← hentries, List.pairwise_map] at hsorted
    rw [List.pairwise_map]
    exact hsorted

/-- Every call is counted in one of the two parts, so they overflow together with
    the total. -/
theorem counts_registered (invoke : φ → σ → Outcome × σ) (tests : Tests φ) (s : σ) :
    (runTests invoke tests s).counts.passedCount + (runTests invoke tests s).counts.failedCount =
      (runTests invoke tests s).counts.totalCount := by
  rcases runTests_spec invoke tests s with ⟨hcalls, htotal, hpassed, hfailed⟩
  have hsplit := List.length_eq_countP_add_countP
    (fun call : Call φ => decide (call.outcome = .returned true))
    (l := (runTests invoke tests s).calls)
  have hlength : (runTests invoke tests s).calls.length = tests.entries.length := by
    rw [← hcalls, List.length_map]
  have hnot : (fun call : Call φ => decide ¬ (decide (call.outcome = .returned true) = true)) =
      fun call => decide (call.outcome ≠ .returned true) := by
    funext call
    simp only [decide_eq_true_eq, ne_eq]
  rw [hnot] at hsplit
  -- Both sides are counted modulo the width of a counter, so it is enough that the
  -- numbers agree.
  rw [← UInt32.toNat_inj, UInt32.toNat_add, hpassed, hfailed, htotal, ← hlength, hsplit,
    ← Nat.add_mod]

/-- Whatever is registered, the run comes to its end exactly if `what()` of
    everything that is thrown returns. Then the functions that were registered
    first under their names are called, each once, in the order of the names;
    the total is the number of names, and the other two counts are those of the
    calls, all modulo the width of a counter. -/
theorem runTests_registered (what : σ → ε → Except Undefined (σ × Str))
    (invoke : φ → σ → Leaving ε × σ) (registrations : List (Str × φ)) (s : σ) :
    WhatReturns what invoke (register SortedMap.empty registrations).entries s ↔
      ∃ report, runTestsCatching (tried what invoke) (register SortedMap.empty registrations) s =
          .ok report ∧
        (∀ name func,
          (name, func) ∈ report.calls.map (fun call => (call.testName, call.testFunc)) ↔
            FirstUnder registrations name func) ∧
        (report.calls.map Call.testName).Pairwise (· < ·) ∧
        report.counts.totalCount.toNat =
          (registrations.map Prod.fst).dedup.length % UInt32.size ∧
        report.counts.passedCount.toNat =
          (report.calls.countP fun call => call.outcome = .returned true) % UInt32.size ∧
        report.counts.failedCount.toNat =
          (report.calls.countP fun call => call.outcome ≠ .returned true) % UInt32.size ∧
        report.counts.passedCount + report.counts.failedCount = report.counts.totalCount := by
  rw [← allReturn_tried_iff]
  rcases runTestsCatching_cases (tried what invoke) (register SortedMap.empty registrations) s with
    ⟨hreturn, hrun⟩ | ⟨hreturn, u, hrun⟩
  · -- Every call comes back, so the run is one whose handlers have nothing to fear.
    refine iff_of_true hreturn ⟨_, hrun, ?_⟩
    rcases runTests_spec (settled (tried what invoke)) (register SortedMap.empty registrations) s
      with ⟨_, htotal, hpassed, hfailed⟩
    rcases calls_registered (settled (tried what invoke)) registrations s with ⟨hfirst, hsorted⟩
    rw [length_register] at htotal
    exact ⟨hfirst, hsorted, htotal, hpassed, hfailed, counts_registered _ _ s⟩
  · refine iff_of_false hreturn ?_
    rintro ⟨report, hreport, _⟩
    rw [hrun] at hreport
    simp only [reduceCtorEq] at hreport

end Testing

end Nanoservices
