import Nanoservices.Testing.Context

/-!
# What the Report Says

`run_tests` against the registrations it is to report on. Both of its loops are
faithful: every test in the context is called once, in the order of the names,
whatever the calls before it threw, and its result is counted once
(`runTests_spec`). The order of registration is not seen.

What can be lost is lost elsewhere. The context has one function under a name,
and `add_test` leaves alone what is there and says nothing. Test functions are
local to their file, so two files may well use one name; the function that is
registered second is never called. The counters are of a fixed width, and come
back to zero. And a thrown exception is asked for its `what()`; if that does not
return, no test behind the one that threw is called. `noTestLost_iff` says that
nothing is lost otherwise.

## Main definitions

* `AllReturn`: Every call in a run comes back.
* `WhatReturns`: So does `what()` of everything that is thrown.
* `settled`: A call that comes back.
* `NoTestLost`: Every registration is called once and counted once.

## Theorems

* `performTestsCatching_cases`: The loop comes to its end if every call does.
* `performTestsCatching_invariant`: What is so after the loop.
* `runTestsCatching_cases`: The run comes to its end if every call does.
* `performTests_spec`: The calls of the first loop, and the results it leaves.
* `countResults_spec`: The counters after the second loop.
* `runTests_spec`: What is called and what is reported.
* `register_eq`: The context holds the first function under each name.
* `noTestLost_iff`: When no registration is lost.
-/

namespace Nanoservices

namespace Testing

variable {φ σ ε : Type}

/-- Every call of a test function comes back, each from the state that the ones
    before have left. -/
def AllReturn (call : φ → σ → Except Undefined (Outcome × σ)) : List (Str × φ) → σ → Prop
  | [], _ => True
  | (_, func) :: tests, s => ∃ p, call func s = .ok p ∧ AllReturn call tests p.2

/-- `what()` of everything that the tests throw returns. -/
def WhatReturns (what : σ → ε → Except Undefined (σ × Str)) (invoke : φ → σ → Leaving ε × σ) :
    List (Str × φ) → σ → Prop
  | [], _ => True
  | (_, func) :: tests, s => match invoke func s with
    | (.returned _, s') => WhatReturns what invoke tests s'
    | (.threw e, s') => ∃ p, what s' e = .ok p ∧ WhatReturns what invoke tests p.1
    | (.threwOther, s') => WhatReturns what invoke tests s'

/-- A call as it is if it comes back. -/
def settled (call : φ → σ → Except Undefined (Outcome × σ)) (func : φ) (s : σ) : Outcome × σ :=
  match call func s with
  | .ok p => p
  | .error _ => (.threwOther, s)

/-- Every registered function is called exactly once, and the counts are those
    of the registrations and of the calls. -/
structure Report.Covers (report : Report φ σ) (registrations : List (Str × φ)) : Prop where
  called : (report.calls.map Call.testFunc).Perm (registrations.map Prod.snd)
  total : report.counts.totalCount.toNat = registrations.length
  passed : report.counts.passedCount.toNat =
    report.calls.countP fun call => call.outcome = .returned true
  failed : report.counts.failedCount.toNat =
    report.calls.countP fun call => call.outcome ≠ .returned true

/-- The run comes to its end, the report covers the registrations, and their
    order does not matter. -/
def NoTestLost (what : σ → ε → Except Undefined (σ × Str)) (invoke : φ → σ → Leaving ε × σ)
    (registrations : List (Str × φ)) (s : σ) : Prop :=
  ∃ report,
    runTestsCatching (tried what invoke) (register SortedMap.empty registrations) s = .ok report ∧
    report.Covers registrations ∧
    ∀ registrations', registrations'.Perm registrations →
      runTestsCatching (tried what invoke) (register SortedMap.empty registrations') s = .ok report

/-! ### The calls -/

/-- `what()` of what the tests throw is all that may not come back. -/
theorem allReturn_tried_iff (what : σ → ε → Except Undefined (σ × Str))
    (invoke : φ → σ → Leaving ε × σ) (tests : List (Str × φ)) (s : σ) :
    AllReturn (tried what invoke) tests s ↔ WhatReturns what invoke tests s := by
  induction tests generalizing s with
  | nil => exact Iff.rfl
  | cons test tests ih =>
      rcases test with ⟨name, func⟩
      rw [AllReturn, WhatReturns, tried]
      rcases hleft : invoke func s with ⟨leaving, s'⟩
      cases leaving with
      | returned result =>
          simp only [catching, Except.ok.injEq, exists_eq_left']
          exact ih s'
      -- Only here is there something that may not return.
      | threw e =>
          simp only [catching]
          cases what s' e with
          | error u => simp only [reduceCtorEq, false_and, exists_false]
          | ok p =>
              simp only [Except.ok.injEq, exists_eq_left']
              exact ih p.1
      | threwOther =>
          simp only [catching, Except.ok.injEq, exists_eq_left']
          exact ih s'

/-- The loop comes to its end if every call comes back, and stops at the first
    that does not. -/
theorem performTestsCatching_cases (call : φ → σ → Except Undefined (Outcome × σ))
    (tests : List (Str × φ)) (testResults : SortedMap Str Bool) (s : σ) :
    (AllReturn call tests s ∧ performTestsCatching call tests testResults s =
        .ok (performTests (settled call) tests testResults s)) ∨
      (¬ AllReturn call tests s ∧
        ∃ u, performTestsCatching call tests testResults s = .error u) := by
  induction tests generalizing testResults s with
  | nil => exact Or.inl ⟨trivial, rfl⟩
  | cons test tests ih =>
      rcases test with ⟨testName, func⟩
      rw [AllReturn, performTestsCatching, performTests, settled]
      -- The first call comes back, or nothing behind it is done.
      cases hcall : call func s with
      | error u =>
          refine Or.inr ⟨?_, u, rfl⟩
          rintro ⟨p, hok, _⟩
          simp only [reduceCtorEq] at hok
      | ok p =>
          rcases p with ⟨outcome, s'⟩
          rcases ih (testResults.insert testName outcome.result) s' with
            ⟨hreturn, hrest⟩ | ⟨hreturn, u, hrest⟩
          · exact Or.inl ⟨⟨_, rfl, hreturn⟩, by simp only [hrest]⟩
          · refine Or.inr ⟨?_, u, by simp only [hrest]⟩
            rintro ⟨p, hok, hreturn'⟩
            rw [← Except.ok.inj hok] at hreturn'
            exact hreturn hreturn'

/-- What every call that comes back leaves as it is, the loop does. -/
theorem performTestsCatching_invariant (call : φ → σ → Except Undefined (Outcome × σ))
    (P : σ → Prop) (hcall : ∀ func s p, P s → call func s = .ok p → P p.2)
    (tests : List (Str × φ)) (testResults : SortedMap Str Bool) (s : σ) (hs : P s)
    (r : List (Call φ) × SortedMap Str Bool × σ)
    (h : performTestsCatching call tests testResults s = .ok r) : P r.2.2 := by
  induction tests generalizing testResults s r with
  | nil =>
      rw [performTestsCatching, Except.ok.injEq] at h
      exact h ▸ hs
  | cons test tests ih =>
      rcases test with ⟨testName, func⟩
      rw [performTestsCatching] at h
      cases hfunc : call func s with
      | error u =>
          rw [hfunc] at h
          simp only [reduceCtorEq] at h
      | ok p =>
          rw [hfunc] at h
          -- The loop has returned, so the rest of it has.
          cases hrest : performTestsCatching call tests (testResults.insert testName p.1.result)
              p.2 with
          | error u => simp only [hrest, reduceCtorEq] at h
          | ok r' =>
              simp only [hrest, Except.ok.injEq] at h
              rw [← h]
              exact ih _ _ (hcall func s p hs hfunc) r' hrest

/-- The same of the whole run. -/
theorem runTestsCatching_cases (call : φ → σ → Except Undefined (Outcome × σ)) (tests : Tests φ)
    (s : σ) :
    (AllReturn call tests.entries s ∧
        runTestsCatching call tests s = .ok (runTests (settled call) tests s)) ∨
      (¬ AllReturn call tests.entries s ∧ ∃ u, runTestsCatching call tests s = .error u) := by
  unfold runTestsCatching
  rcases performTestsCatching_cases call tests.entries SortedMap.empty s with
    ⟨hreturn, hloop⟩ | ⟨hreturn, u, hloop⟩
  · rw [hloop]
    exact Or.inl ⟨hreturn, rfl⟩
  · rw [hloop]
    exact Or.inr ⟨hreturn, u, rfl⟩

/-! ### The loops -/

/-- The calls are those of the tests, in their order, and each result is put
    under the name of its test. -/
theorem performTests_spec (invoke : φ → σ → Outcome × σ) (tests : List (Str × φ))
    (testResults : SortedMap Str Bool) (s : σ) :
    (performTests invoke tests testResults s).1.map (fun call => (call.testName, call.testFunc)) =
        tests ∧
      (performTests invoke tests testResults s).2.1 =
        testResults.insertAll ((performTests invoke tests testResults s).1.map fun call =>
          (call.testName, call.outcome.result)) := by
  induction tests generalizing testResults s with
  | nil => exact ⟨rfl, rfl⟩
  | cons test tests ih =>
      rcases ih (testResults.insert test.1 (invoke test.2 s).1.result) (invoke test.2 s).2 with
        ⟨hcalls, hresults⟩
      refine ⟨congrArg (List.cons test) hcalls, ?_⟩
      rw [performTests, List.map_cons, SortedMap.insertAll_cons]
      exact hresults

/-- Counting one more before or after makes no difference, also where the
    counter wraps around. -/
theorem add_one_add_ofNat (a : UInt32) (n : Nat) : a + 1 + .ofNat n = a + .ofNat (n + 1) := by
  rw [UInt32.add_assoc, Nat.add_comm n 1, UInt32.ofNat_add]
  rfl

/-- Every result is counted in the total and in one of the two parts. -/
theorem countResults_spec (testResults : List (Str × Bool)) (counts : Counts) :
    (countResults testResults counts).totalCount =
        counts.totalCount + .ofNat testResults.length ∧
      (countResults testResults counts).passedCount =
        counts.passedCount + .ofNat (testResults.countP fun r => r.2) ∧
      (countResults testResults counts).failedCount =
        counts.failedCount + .ofNat (testResults.countP fun r => !r.2) := by
  induction testResults generalizing counts with
  | nil => exact ⟨(UInt32.add_zero _).symm, (UInt32.add_zero _).symm, (UInt32.add_zero _).symm⟩
  | cons r testResults ih =>
      rcases r with ⟨testName, testResult⟩
      -- A result counts in the total, and as passed or as failed.
      cases testResult with
      | true =>
          rcases ih ⟨counts.totalCount + 1, counts.passedCount + 1, counts.failedCount⟩ with
            ⟨htotal, hpassed, hfailed⟩
          rw [add_one_add_ofNat] at htotal hpassed
          simp only [countResults, if_true, List.length_cons, List.countP_cons, Bool.not_true,
            Bool.false_eq_true, if_false, Nat.add_zero]
          exact ⟨htotal, hpassed, hfailed⟩
      | false =>
          rcases ih ⟨counts.totalCount + 1, counts.passedCount, counts.failedCount + 1⟩ with
            ⟨htotal, hpassed, hfailed⟩
          rw [add_one_add_ofNat] at htotal hfailed
          simp only [countResults, Bool.false_eq_true, if_false, List.length_cons,
            List.countP_cons, Bool.not_false, if_true, Nat.add_zero]
          exact ⟨htotal, hpassed, hfailed⟩

/-- The counters after counting from zero. -/
theorem countResults_zero (testResults : List (Str × Bool)) :
    (countResults testResults ⟨0, 0, 0⟩).totalCount.toNat = testResults.length % UInt32.size ∧
      (countResults testResults ⟨0, 0, 0⟩).passedCount.toNat =
        (testResults.countP fun r => r.2) % UInt32.size ∧
      (countResults testResults ⟨0, 0, 0⟩).failedCount.toNat =
        (testResults.countP fun r => !r.2) % UInt32.size := by
  rcases countResults_spec testResults ⟨0, 0, 0⟩ with ⟨htotal, hpassed, hfailed⟩
  rw [htotal, hpassed, hfailed]
  simp only [UInt32.zero_add, UInt32.toNat_ofNat']
  exact ⟨trivial, trivial, trivial⟩

/-- A test has passed if it returned `true`, and in no other way. -/
theorem result_eq_true_iff (outcome : Outcome) :
    outcome.result = true ↔ outcome = .returned true := by
  cases outcome with
  | returned result => simp only [Outcome.result, Outcome.returned.injEq]
  | threwException => simp only [Outcome.result, Bool.false_eq_true, reduceCtorEq]
  | threwOther => simp only [Outcome.result, Bool.false_eq_true, reduceCtorEq]

/-- The results are counted as the calls they came from. -/
theorem countP_results (calls : List (Call φ)) :
    ((calls.map fun call => (call.testName, call.outcome.result)).countP fun r => r.2) =
        (calls.countP fun call => call.outcome = .returned true) ∧
      ((calls.map fun call => (call.testName, call.outcome.result)).countP fun r => !r.2) =
        calls.countP fun call => call.outcome ≠ .returned true := by
  rw [List.countP_map, List.countP_map]
  constructor
  · refine List.countP_congr ?_
    intro call _
    rw [Function.comp_apply, decide_eq_true_eq]
    exact result_eq_true_iff call.outcome
  · refine List.countP_congr ?_
    intro call _
    rw [Function.comp_apply, decide_eq_true_eq, Bool.not_eq_true', ← Bool.not_eq_true]
    exact (result_eq_true_iff call.outcome).not

/-- Each test of the context is called once, in the order of the names, and the
    counters count the calls, modulo their width. -/
theorem runTests_spec (invoke : φ → σ → Outcome × σ) (tests : Tests φ) (s : σ) :
    (runTests invoke tests s).calls.map (fun call => (call.testName, call.testFunc)) =
        tests.entries ∧
      (runTests invoke tests s).counts.totalCount.toNat = tests.entries.length % UInt32.size ∧
      (runTests invoke tests s).counts.passedCount.toNat =
        ((runTests invoke tests s).calls.countP fun call => call.outcome = .returned true) %
          UInt32.size ∧
      (runTests invoke tests s).counts.failedCount.toNat =
        ((runTests invoke tests s).calls.countP fun call => call.outcome ≠ .returned true) %
          UInt32.size := by
  rcases performTests_spec invoke tests.entries SortedMap.empty s with ⟨hcalls, hresults⟩
  unfold runTests
  generalize performTests invoke tests.entries SortedMap.empty s = performed at hcalls hresults
  rcases performed with ⟨calls, testResults, s'⟩
  simp only at hcalls hresults ⊢
  -- Under the names of the calls the results are in order.
  have hsorted : (calls.map fun call => (call.testName, call.outcome.result)).Pairwise
      fun a b => a.1 < b.1 := by
    have htests := tests.sorted
    rw [← hcalls, List.pairwise_map] at htests
    rw [List.pairwise_map]
    exact htests
  have hentries : testResults.entries =
      calls.map fun call => (call.testName, call.outcome.result) := by
    rw [hresults, SortedMap.insertAll_sorted_empty _ hsorted]
  rcases countResults_zero testResults.entries with ⟨htotal, hpassed, hfailed⟩
  refine ⟨hcalls, ?_, ?_, ?_⟩
  · rw [htotal, hentries, List.length_map, ← hcalls, List.length_map]
  · rw [hpassed, hentries, (countP_results calls).1]
  · rw [hfailed, hentries, (countP_results calls).2]

/-! ### Registration -/

/-- The context holds the function that was registered first under each
    name. -/
theorem register_eq (registrations : List (Str × φ)) :
    register SortedMap.empty registrations = SortedMap.ofList registrations.reverse := by
  rw [← SortedMap.emplaceAll_empty]
  generalize (SortedMap.empty : Tests φ) = tests
  induction registrations generalizing tests with
  | nil => rfl
  | cons r registrations ih => exact ih _

/-- Different names may be registered in any order. -/
theorem register_perm (registrations registrations' : List (Str × φ))
    (hperm : registrations'.Perm registrations) (h : (registrations.map Prod.fst).Nodup) :
    register SortedMap.empty registrations' = register SortedMap.empty registrations := by
  have h' : (registrations'.map Prod.fst).Nodup := (hperm.map Prod.fst).nodup_iff.mpr h
  rw [register_eq, register_eq]
  refine SortedMap.ext_find? _ _ ?_
  intro name
  ext func
  rw [SortedMap.find?_ofList, SortedMap.find?_ofList, List.reverse_reverse, List.reverse_reverse,
    SortedMap.lookup_eq_some_iff_mem _ h', SortedMap.lookup_eq_some_iff_mem _ h, hperm.mem_iff]

/-- With different names all registered functions are in the context. -/
theorem register_entries_perm (registrations : List (Str × φ))
    (h : (registrations.map Prod.fst).Nodup) :
    (register SortedMap.empty registrations).entries.Perm registrations := by
  have hrev : (registrations.reverse.map Prod.fst).Nodup := by
    rw [List.map_reverse]
    exact List.nodup_reverse.mpr h
  rw [register_eq]
  exact (SortedMap.ofList_perm _ hrev).trans registrations.reverse_perm

/-- As many functions as were registered are in the context only if they have
    different names. -/
theorem register_length (registrations : List (Str × φ)) :
    (register SortedMap.empty registrations).entries.length ≤ registrations.length ∧
      ((register SortedMap.empty registrations).entries.length = registrations.length →
        (registrations.map Prod.fst).Nodup) := by
  have hreverse : registrations.reverse.length = registrations.length := List.length_reverse
  rw [register_eq, ← hreverse]
  refine ⟨SortedMap.length_ofList_le _, ?_⟩
  intro hlength
  have hrev := (SortedMap.length_ofList_eq_iff _).mp hlength
  rw [List.map_reverse] at hrev
  exact List.nodup_reverse.mp hrev

/-- What a run that comes to its end reports covers the registrations exactly if
    their names differ and they can be counted. -/
theorem covers_iff (invoke : φ → σ → Outcome × σ) (registrations : List (Str × φ)) (s : σ) :
    (runTests invoke (register SortedMap.empty registrations) s).Covers registrations ↔
      (registrations.map Prod.fst).Nodup ∧ registrations.length < UInt32.size := by
  rcases runTests_spec invoke (register SortedMap.empty registrations) s with
    ⟨hcalls, htotal, hpassed, hfailed⟩
  constructor
  · intro hcovers
    -- The total is no more than the tests in the context, and these are no more than
    -- were registered.
    rcases register_length registrations with ⟨hle, hnodup⟩
    have hall := htotal.symm.trans hcovers.total
    have hmod := Nat.mod_le (register SortedMap.empty registrations).entries.length UInt32.size
    have hlt := Nat.mod_lt (register SortedMap.empty registrations).entries.length
      (show 0 < UInt32.size by decide)
    exact ⟨hnodup (by omega), by omega⟩
  · rintro ⟨hnodup, hlt⟩
    have hperm := register_entries_perm registrations hnodup
    -- What is called is what is in the context, and that is all there is.
    have hfuncs : (runTests invoke (register SortedMap.empty registrations) s).calls.map
        Call.testFunc = (register SortedMap.empty registrations).entries.map Prod.snd := by
      rw [← hcalls, List.map_map]
      rfl
    have hlength : (runTests invoke (register SortedMap.empty registrations) s).calls.length =
        registrations.length := by
      rw [← hperm.length_eq, ← hcalls, List.length_map]
    constructor
    · rw [hfuncs]
      exact hperm.map Prod.snd
    · rw [htotal, hperm.length_eq, Nat.mod_eq_of_lt hlt]
    · rw [hpassed, Nat.mod_eq_of_lt]
      exact lt_of_le_of_lt List.countP_le_length (hlength ▸ hlt)
    · rw [hfailed, Nat.mod_eq_of_lt]
      exact lt_of_le_of_lt List.countP_le_length (hlength ▸ hlt)

/-- No registration is lost exactly if no two of them have the same name, there
    are no more of them than the counters can count, and `what()` of everything
    that the tests throw returns. -/
theorem noTestLost_iff (what : σ → ε → Except Undefined (σ × Str))
    (invoke : φ → σ → Leaving ε × σ) (registrations : List (Str × φ)) (s : σ) :
    NoTestLost what invoke registrations s ↔
      (registrations.map Prod.fst).Nodup ∧ registrations.length < UInt32.size ∧
        WhatReturns what invoke (register SortedMap.empty registrations).entries s := by
  rw [← allReturn_tried_iff, ← and_assoc,
    ← covers_iff (settled (tried what invoke)) registrations s]
  unfold NoTestLost
  rcases runTestsCatching_cases (tried what invoke) (register SortedMap.empty registrations) s with
    ⟨hreturn, hrun⟩ | ⟨hreturn, u, hrun⟩
  · rw [hrun]
    constructor
    · rintro ⟨report, hreport, hcovers, _⟩
      exact ⟨Except.ok.inj hreport ▸ hcovers, hreturn⟩
    · rintro ⟨hcovers, _⟩
      refine ⟨_, rfl, hcovers, ?_⟩
      intro registrations' hperm
      -- With different names the context is the same.
      have hnodup := ((covers_iff _ registrations s).mp hcovers).1
      rw [register_perm registrations registrations' hperm hnodup, hrun]
  · rw [hrun]
    refine iff_of_false ?_ fun h => hreturn h.2
    rintro ⟨report, hreport, _⟩
    simp only [reduceCtorEq] at hreport

/-- Two files register a test under one name: the second function is not called.
    Or the first of two tests throws something that cannot be described: again
    the second is not called. -/
theorem not_noTestLost_sameName :
    (¬ NoTestLost (fun (s : Unit) (_ : Unit) => .ok (s, str "boom"))
      (fun func s => (.returned func, s)) [(str "test_a", true), (str "test_a", false)] ()) ∧
    ¬ NoTestLost (fun (_ : Unit) (_ : Unit) => .error .nullDereference)
      (fun (func : Leaving Unit) s => (func, s))
      [(str "test_a", .threw ()), (str "test_b", .returned true)] () := by
  constructor
  · rintro ⟨report, hrun, hcovers, _⟩
    -- Only one of the two is in the context, so the total is 1.
    have hreport := Except.ok.inj hrun
    have htotal := hcovers.total
    rw [← hreport] at htotal
    exact absurd htotal (by decide)
  · -- The handler for the first test does not come to its end.
    rintro ⟨report, hrun, _⟩
    have hfault : runTestsCatching (tried (fun (_ : Unit) (_ : Unit) => .error .nullDereference)
        (fun (func : Leaving Unit) s => (func, s))) (register SortedMap.empty
          [(str "test_a", .threw ()), (str "test_b", .returned true)]) () =
        .error .nullDereference := rfl
    rw [hfault] at hrun
    simp only [reduceCtorEq] at hrun

end Testing

end Nanoservices
