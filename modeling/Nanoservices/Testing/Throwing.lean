import Nanoservices.Exception.Capture
import Nanoservices.Library.Dialogue
import Nanoservices.Testing.Context

/-!
# Tests That Throw

The tests in their dealings with exceptions. A test function constructs
exceptions, copies them and asks for their descriptions, and its course depends
on what it is told; in the end it returns or throws one of them. `run_tests`
catches what is thrown and asks for its description too, since that goes into
the log, and it asks at every level of the logger: the arguments of a call are
there before the call.

So the exceptions that do not survive `what()` take the whole run of the tests
with them. `runTestsCatching` is taken here over such test functions, and
`runTests` is what becomes of it where everybody can be described
(`runTestsCatching_iff`): a run comes to its end exactly if neither a test nor
`run_tests` itself asks for the description of an exception with another class
among its causes, and then the calls and the counts are those of `runTests`.

## Main definitions

* `TestFunc`: A test function.
* `callTest`: A call of it by `run_tests`.
* `Answerable`, `Speaks`: What can be asked for.
* `describing`: A test function, on descriptions.
* `MayRun`, `Survives`: What a test may do, and what it must not.

## Theorems

* `step_decides`: Which operations on exceptions are survived.
* `virtualWhat_represents`: Which thrown exceptions are.
* `callTest_represents`: Which test functions are.
* `performTestsCatching_represents`: Which lists of them are.
* `runTestsCatching_iff`: Which runs of the tests are.
-/

namespace Nanoservices

namespace Testing

open Exception Machine

/-- A test function, as a caller of the operations on exceptions. What it throws
    is an object of the heap. -/
abbrev TestFunc := Dialogue Op Exception.Answer (Leaving Nat)

/-- A call of a test function by `run_tests`. -/
def callTest (func : TestFunc) (heap : Heap) : Except Undefined (Outcome × Heap) :=
  match func.exec Exception.step heap with
  | .error u => .error u
  | .ok (heap', leaving) => catching virtualWhat heap' leaving

/-! ### What can be described -/

/-- The description that is asked for, if one is, can be given. -/
def Answerable (ds : List Description) : Op → Prop
  | .what i => ∃ d, ds[i]? = some d ∧ d.Describable
  | .whatstr i => ∃ d, ds[i]? = some d ∧ d.Describable
  | _ => True

/-- `what()` of the exception returns: a class of its own has its own. -/
def Speaks (d : Description) : Prop := d.IsNsException → d.Describable

/-- Operations on exceptions are survived unless they ask for a description that
    cannot be given. -/
theorem step_decides : Decides Exception.step specStep MayIssue Answerable Represents := by
  intro heap ds op hR hmay
  -- What completes is answered as specified; only descriptions may not complete.
  have hother : ∀ heap' answer, Exception.step heap op = .ok (heap', answer) → Answerable ds op →
      (Answerable ds op ∧ ∃ heap', Exception.step heap op = .ok (heap', (specStep ds op).2) ∧
        Represents heap' (specStep ds op).1) ∨
      (¬ Answerable ds op ∧ ∃ u, Exception.step heap op = .error u) := by
    intro heap' answer hstep hanswerable
    rcases step_sound heap ds op heap' answer hR hmay hstep with ⟨rfl, hR'⟩
    exact Or.inl ⟨hanswerable, heap', hstep, hR'⟩
  cases op with
  | newMessage message position => exact hother _ _ rfl trivial
  | newCaused cause message position => exact hother _ _ rfl trivial
  | newForeign what => exact hother _ _ rfl trivial
  | copy i =>
      rcases hmay with ⟨d, hd, _⟩
      rcases hR.exists_object _ _ i d hd with ⟨o, ho, _⟩
      exact hother _ _ (by rw [Exception.step, ho]) trivial
  | what i =>
      rcases hmay with ⟨d, hd, _⟩
      rcases whatstr_length_represents heap ds hR i d hd with
        ⟨hdesc, heap', hrun, _⟩ | ⟨hdesc, hrun⟩
      · exact hother _ _ (by rw [Exception.step, what, hrun]) ⟨d, hd, hdesc⟩
      · refine Or.inr ⟨?_, .nullDereference, by rw [Exception.step, what, hrun]⟩
        rintro ⟨d', hd', hdesc'⟩
        rw [hd, Option.some.injEq] at hd'
        exact hdesc (hd' ▸ hdesc')
  | whatstr i =>
      rcases hmay with ⟨d, hd, _⟩
      -- The same question, with the whole text for an answer.
      rcases whatstr_length_represents heap ds hR i d hd with
        ⟨hdesc, heap', hrun, _⟩ | ⟨hdesc, hrun⟩
      · exact hother _ _ (by rw [Exception.step, hrun]) ⟨d, hd, hdesc⟩
      · refine Or.inr ⟨?_, .nullDereference, by rw [Exception.step, hrun]⟩
        rintro ⟨d', hd', hdesc'⟩
        rw [hd, Option.some.injEq] at hd'
        exact hdesc (hd' ▸ hdesc')

/-- A thrown exception survives `what()` if it speaks, and not otherwise. -/
theorem virtualWhat_represents (heap : Heap) (ds : List Description) (h : Represents heap ds)
    (i : Nat) (d : Description) (hd : ds[i]? = some d) :
    (Speaks d ∧ ∃ heap' text, virtualWhat heap i = .ok (heap', text) ∧ Represents heap' ds) ∨
      (¬ Speaks d ∧ ∃ u, virtualWhat heap i = .error u) := by
  rcases h.exists_object _ _ i d hd with ⟨o, ho, hfits⟩
  cases o with
  | foreign text =>
      -- Another class has a text of its own.
      have hforeign : d = .foreign text := hfits
      refine Or.inl ⟨?_, heap, cString text, by rw [virtualWhat, ho], h⟩
      intro hns
      rw [hforeign] at hns
      exact absurd hns not_false
  | nsException e =>
      -- An object of `ns_exception` is described as one.
      have hns : d.IsNsException := by
        cases d with
        | foreign text =>
            have hcause := hfits.1
            cases hc : e.cause with
            | none =>
                rw [hc] at hcause
                exact absurd hcause Description.noConfusion
            | some c =>
                rw [hc] at hcause
                rcases hcause with ⟨_, _, _, hcause⟩
                exact absurd hcause Description.noConfusion
        | plain message position => exact trivial
        | caused message position cause => exact trivial
      rcases whatstr_length_represents heap ds h i d hd with
        ⟨hdesc, heap', hrun, hR⟩ | ⟨hdesc, hrun⟩
      · exact Or.inl ⟨fun _ => hdesc, heap', cString d.rendering,
          by simp only [virtualWhat, ho, what, hrun], hR⟩
      · exact Or.inr ⟨fun hspeaks => hdesc (hspeaks hns), .nullDereference,
          by simp only [virtualWhat, ho, what, hrun]⟩

/-! ### Runs -/

/-- A test function, where every description can be given. -/
def describing (func : TestFunc) (ds : List Description) : Outcome × List Description :=
  ((func.specExec specStep ds).2.outcome, (func.specExec specStep ds).1)

/-- A test function that keeps to the operations it may issue, and throws what
    has been constructed. -/
def MayRun (ds : List Description) (func : TestFunc) : Prop :=
  func.Asks specStep MayIssue ds ∧
    ∀ i, (func.specExec specStep ds).2 = .threw i → i < (func.specExec specStep ds).1.length

/-- Neither the test function nor the handler asks for a description that cannot
    be given. -/
def Survives (ds : List Description) (func : TestFunc) : Prop :=
  func.Asks specStep Answerable ds ∧
    ∀ i, (func.specExec specStep ds).2 = .threw i →
      ∃ d, (func.specExec specStep ds).1[i]? = some d ∧ Speaks d

/-- The property of each test, on the exceptions that the ones before have left. -/
def Along (P : List Description → TestFunc → Prop) :
    List Description → List (Str × TestFunc) → Prop
  | _, [] => True
  | ds, (_, func) :: tests => P ds func ∧ Along P (describing func ds).2 tests

/-- A call of a test function is survived or not. -/
theorem callTest_represents (func : TestFunc) (heap : Heap) (ds : List Description)
    (hR : Represents heap ds) (hmay : MayRun ds func) :
    (Survives ds func ∧ ∃ heap', callTest func heap = .ok ((describing func ds).1, heap') ∧
        Represents heap' (describing func ds).2) ∨
      (¬ Survives ds func ∧ ∃ u, callTest func heap = .error u) := by
  unfold Survives callTest describing
  rcases step_decides.exec func heap ds hR hmay.1 with ⟨hasks, heap', hok, hR'⟩ | ⟨hasks, u, herr⟩
  · rw [hok]
    have hthrown := hmay.2
    generalize func.specExec specStep ds = ended at hR' hthrown ⊢
    rcases ended with ⟨ds', leaving⟩
    cases leaving with
    | returned result => exact Or.inl ⟨⟨hasks, nofun⟩, heap', rfl, hR'⟩
    | threwOther => exact Or.inl ⟨⟨hasks, nofun⟩, heap', rfl, hR'⟩
    | threw i =>
        -- The handler asks the exception that has been thrown.
        have hd := List.getElem?_eq_getElem (hthrown i rfl)
        rcases virtualWhat_represents heap' ds' hR' i _ hd with
          ⟨hspeaks, heap'', text, hwhat, hR''⟩ | ⟨hspeaks, u, hwhat⟩
        · refine Or.inl ⟨⟨hasks, ?_⟩, heap'', by simp only [catching, hwhat, Leaving.outcome], hR''⟩
          intro j hj
          rw [Leaving.threw.injEq] at hj
          exact ⟨_, hj ▸ hd, hspeaks⟩
        · refine Or.inr ⟨?_, u, by simp only [catching, hwhat]⟩
          rintro ⟨_, hall⟩
          rcases hall i rfl with ⟨d, hd', hspeaks'⟩
          rw [hd, Option.some.injEq] at hd'
          exact hspeaks (hd' ▸ hspeaks')
  · -- The test function does not come to its end.
    rw [herr]
    exact Or.inr ⟨fun h => hasks h.1, u, rfl⟩

/-- The loop comes to its end if it survives each of the tests. -/
theorem performTestsCatching_represents (tests : List (Str × TestFunc))
    (testResults : SortedMap Str Bool) (heap : Heap) (ds : List Description)
    (hR : Represents heap ds) (hmay : Along MayRun ds tests) :
    (Along Survives ds tests ∧ ∃ heap', performTestsCatching callTest tests testResults heap =
        .ok ((performTests describing tests testResults ds).1,
          (performTests describing tests testResults ds).2.1, heap')) ∨
      (¬ Along Survives ds tests ∧
        ∃ u, performTestsCatching callTest tests testResults heap = .error u) := by
  induction tests generalizing testResults heap ds with
  | nil => exact Or.inl ⟨trivial, heap, rfl⟩
  | cons test tests ih =>
      rcases test with ⟨testName, func⟩
      rw [Along] at hmay
      rw [Along, performTestsCatching, performTests]
      -- A test that is survived leaves exceptions that the next one may use.
      rcases callTest_represents func heap ds hR hmay.1 with
        ⟨hsurvives, heap', hok, hR'⟩ | ⟨hsurvives, u, herr⟩
      · rw [hok]
        rcases ih (testResults.insert testName (describing func ds).1.result) heap' _ hR'
          hmay.2 with
          ⟨hrest, heap'', hloop⟩ | ⟨hrest, u, hloop⟩
        · exact Or.inl ⟨⟨hsurvives, hrest⟩, heap'', by simp only [hloop]⟩
        · exact Or.inr ⟨fun h => hrest h.2, u, by simp only [hloop]⟩
      · -- None of the tests behind this one is run.
        rw [herr]
        exact Or.inr ⟨fun h => hsurvives h.1, u, rfl⟩

/-- A run of the tests comes to its end exactly if nobody asks for the
    description of an exception that has another class among its causes: no
    test, and not `run_tests` for what a test throws. Then it has made the calls
    and reports the counts that it does where all can be described. -/
theorem runTestsCatching_iff (tests : Tests TestFunc) (heap : Heap) (ds : List Description)
    (hR : Represents heap ds) (hmay : Along MayRun ds tests.entries) :
    ((∃ report, runTestsCatching callTest tests heap = .ok report) ↔
        Along Survives ds tests.entries) ∧
      ∀ report, runTestsCatching callTest tests heap = .ok report →
        report.calls = (runTests describing tests ds).calls ∧
          report.counts = (runTests describing tests ds).counts := by
  unfold runTestsCatching
  rcases performTestsCatching_represents tests.entries SortedMap.empty heap ds hR hmay with
    ⟨hsurvives, heap', hok⟩ | ⟨hsurvives, u, herr⟩
  · rw [hok]
    refine ⟨iff_of_true ⟨_, rfl⟩ hsurvives, ?_⟩
    intro report hreport
    rw [← Except.ok.inj hreport]
    exact ⟨rfl, rfl⟩
  · rw [herr]
    refine ⟨iff_of_false ?_ hsurvives, ?_⟩
    · rintro ⟨report, hreport⟩
      simp only [reduceCtorEq] at hreport
    · intro report hreport
      simp only [reduceCtorEq] at hreport

/-- A test that throws an exception which another class has caused. -/
def throwCaused : TestFunc :=
  .ask (.newForeign (str "boom")) fun _ =>
    .ask (.newCaused (some 0) (str "m") (str "p")) fun _ => .done (.threw 1)

/-- That one, and one that would pass. -/
def boomTests : Tests TestFunc :=
  register SortedMap.empty [(str "test_b", .done (.returned true)), (str "test_a", throwCaused)]

/-- The run does not come to its end, although the other test would have passed. -/
theorem runTestsCatching_iff_boom :
    ¬ ∃ report, runTestsCatching callTest boomTests [] = .ok report := by
  have hentries : boomTests.entries =
      [(str "test_a", throwCaused), (str "test_b", .done (.returned true))] := rfl
  have hthrow : MayRun [] throwCaused := by
    refine ⟨⟨trivial, Nat.zero_lt_one, trivial⟩, ?_⟩
    intro i hi
    rw [← Leaving.threw.inj hi]
    exact Nat.one_lt_two
  have hmay : Along MayRun [] boomTests.entries := by
    rw [hentries]
    exact ⟨hthrow, ⟨trivial, nofun⟩, trivial⟩
  -- The exception that is thrown has another class among its causes.
  refine (runTestsCatching_iff boomTests [] [] represents_nil hmay).1.not.mpr ?_
  rw [hentries]
  rintro ⟨⟨_, hthrown⟩, _⟩
  rcases hthrown 1 rfl with ⟨d, hd, hspeaks⟩
  rw [← Option.some.inj hd] at hspeaks
  exact hspeaks trivial

end Testing

end Nanoservices
