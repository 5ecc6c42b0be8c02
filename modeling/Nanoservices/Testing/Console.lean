import Nanoservices.Logging.Logger
import Nanoservices.Testing.Report

/-!
# The Log of a Test Run

`run_tests` once more, with the lines that it logs. The tests log too, to the
same logger, and they may change its level; what they write stands between the
lines of `run_tests`, and a line that the level at the time does not admit is
missing. Where `what()` of a thrown exception does not return there is no end to
the log, and nothing is said of it.

The log of a run that ends is a report all the same. It ends with a heading, a
line for each test and a summary, and no line for a test reads like the heading.
Whatever the tests have written before, the results can therefore be read off
the end of the log, as long as the level they have left admits `info`
(`log_determines_results`). Nothing that a test logs can pass for a result.

The logging has no part in the counts: `runTestsLog_report`.

## Main definitions

* `Thrown`: An exception, with what the log says of it.
* `Played`: A test function that was called.
* `Console`: The logger and what else the log depends on.
* `performTestsLog`, `resultLines`: The loops of `run_tests`.
* `runTestsLog`: `ns_testing_context::run_tests`.
* `quietly`: A call without what is logged.
* `Report.results`: The results that the log is to tell of.

## Theorems

* `performTestsLog_cases`: The calls and the results without the log.
* `runTestsLog_report`: The report without the log.
* `resultLine_injective`: A line says which test it is and how it ended.
* `results_of_endings`: The end of a log tells of the results.
* `log_determines_results`: So equal logs tell of equal results.
-/

namespace Nanoservices

namespace Testing

open Logging

variable {φ σ : Type}

/-- `testPassedIndicator`: bold, bright white on green. -/
def testPassedIndicator : Str := str "\x1b[1m\x1b[97m\x1b[42m PASSED \x1b[0m"

/-- `testFailedIndicator`: bold, bright white on red. -/
def testFailedIndicator : Str := str "\x1b[1m\x1b[97m\x1b[41m FAILED \x1b[0m"

/-- The indicator of a result. -/
def indicator (result : Bool) : Str := if result then testPassedIndicator else testFailedIndicator

/-- An exception, with the name that `typeid` has for its class and what becomes
    of a call of its `what()`. -/
structure Thrown where
  typeidName : Str
  what : Except Undefined Str

/-- The call of `what()`. -/
def Thrown.tell {σ : Type} (s : σ) (e : Thrown) : Except Undefined (σ × Str) :=
  match e.what with
  | .error u => .error u
  | .ok text => .ok (s, text)

/-- A test function that was called: how it left, what it logged, and the state
    of the program afterwards. -/
structure Played (σ : Type) where
  leaving : Leaving Thrown
  log : List Line
  state : σ

/-- The call without what was logged. -/
def Played.left {σ : Type} (played : Played σ) : Leaving Thrown × σ :=
  (played.leaving, played.state)

/-- The level that the logger has in a state, `abi::__cxa_demangle`, and how
    `{:.2f}` writes the percentage of a count. -/
structure Console (σ : Type) where
  level : σ → LevelEnum
  cxaDemangle : Str → Int × Str
  percentage : UInt32 → UInt32 → Str

/-- `{}` of a count. -/
def decimal (n : UInt32) : Str := str (toString n.toNat)

namespace Console

variable (c : Console σ)

/-- The lines of the `catch` clauses. -/
def caught (s : σ) (testName : Str) : Leaving Thrown → Except Undefined (List Line)
  | .returned _ => .ok []
  | .threw e => match e.what with
    | .error u => .error u
    | .ok what =>
      let demangled := demangleTypeName (c.level s) c.cxaDemangle e.typeidName false
      .ok (demangled.log ++ match demangled.result with
        | .error _ => []
        | .ok typeName => logAt (c.level s) .warn (str ".... Test " ++ testName ++
            str " failed due to an exception derived from std::exception: " ++ typeName ++
            str ": " ++ cString what))
  | .threwOther => .ok (logAt (c.level s) .warn
      (str ".... Test " ++ testName ++ str " failed due to a thrown non-an-std::exception"))

/-- The first loop of `run_tests` with its log. -/
def performTestsLog (invoke : φ → σ → Played σ) :
    List (Str × φ) → SortedMap Str Bool → σ →
      Except Undefined (List Line × List (Call φ) × SortedMap Str Bool × σ)
  | [], testResults, s => .ok ([], [], testResults, s)
  | (testName, testFunc) :: tests, testResults, s =>
    let performing := logAt (c.level s) .info (str "---- Performing item: " ++ testName)
    let played := invoke testFunc s
    match c.caught played.state testName played.leaving with
    | .error u => .error u
    | .ok warning =>
      let result := played.leaving.outcome.result
      let verdict := logAt (c.level played.state) .info
        (str ".... Test " ++ testName ++ str " " ++ indicator result)
      match performTestsLog invoke tests (testResults.insert testName result) played.state with
      | .error u => .error u
      | .ok (log, calls, rest) =>
        .ok (performing ++ played.log ++ warning ++ verdict ++ log,
          ⟨testName, testFunc, played.leaving.outcome⟩ :: calls, rest)

/-- The line for a result. -/
def resultLine (result : Str × Bool) : Str := indicator result.2 ++ str " " ++ result.1

/-- What the second loop logs. -/
def resultLines (s : σ) (testResults : List (Str × Bool)) : List Line :=
  testResults.flatMap fun result => logAt (c.level s) .info (resultLine result)

/-- The last line. -/
def summary (counts : Counts) : Str :=
  str "==== Performing tests finished: total " ++ decimal counts.totalCount ++ str " tests, " ++
    decimal counts.passedCount ++ str " (" ++ c.percentage counts.passedCount counts.totalCount ++
    str "%) passed, " ++ decimal counts.failedCount ++ str " (" ++
    c.percentage counts.failedCount counts.totalCount ++ str "%) failed"

/-- `ns_testing_context::run_tests` with its log. -/
def runTestsLog (invoke : φ → σ → Played σ) (tests : Tests φ) (s : σ) :
    Except Undefined (List Line × Report φ σ) :=
  match c.performTestsLog invoke tests.entries SortedMap.empty s with
  | .error u => .error u
  | .ok (log, calls, testResults, s') =>
    let counts := countResults testResults.entries ⟨0, 0, 0⟩
    .ok (logAt (c.level s) .info (str "==== Performing tests") ++ log ++
      logAt (c.level s') .info (str "==== Test results:") ++
      c.resultLines s' testResults.entries ++
      logAt (c.level s') .info (c.summary counts), ⟨calls, counts, s'⟩)

end Console

/-- A call of a test function without what is logged. -/
def quietly (invoke : φ → σ → Played σ) : φ → σ → Except Undefined (Outcome × σ) :=
  tried Thrown.tell fun func s => (invoke func s).left

/-- The results that the calls of a run have, under the names of the tests. -/
def Report.results (report : Report φ σ) : List (Str × Bool) :=
  report.calls.map fun call => (call.testName, call.outcome.result)

/-! ### The report -/

/-- The handlers say something if they come back. -/
theorem caught_cases (c : Console σ) (invoke : φ → σ → Played σ) (func : φ) (s : σ)
    (testName : Str) :
    (∃ warning, c.caught (invoke func s).state testName (invoke func s).leaving = .ok warning ∧
        quietly invoke func s = .ok ((invoke func s).leaving.outcome, (invoke func s).state)) ∨
      ∃ u, c.caught (invoke func s).state testName (invoke func s).leaving = .error u ∧
        quietly invoke func s = .error u := by
  rw [quietly, tried, Played.left]
  generalize (invoke func s).leaving = leaving
  cases leaving with
  | returned result => exact Or.inl ⟨_, rfl, rfl⟩
  | threwOther => exact Or.inl ⟨_, rfl, rfl⟩
  -- Both have to ask the exception what it is.
  | threw e =>
      simp only [Console.caught, catching, Thrown.tell]
      cases e.what with
      | error u => exact Or.inr ⟨u, rfl, rfl⟩
      | ok what => exact Or.inl ⟨_, rfl, rfl⟩

/-- Without its log the first loop is the first loop. -/
theorem performTestsLog_cases (c : Console σ) (invoke : φ → σ → Played σ)
    (tests : List (Str × φ)) (testResults : SortedMap Str Bool) (s : σ) :
    (∃ log calls rest, c.performTestsLog invoke tests testResults s = .ok (log, calls, rest) ∧
        performTestsCatching (quietly invoke) tests testResults s = .ok (calls, rest)) ∨
      ∃ u, c.performTestsLog invoke tests testResults s = .error u ∧
        performTestsCatching (quietly invoke) tests testResults s = .error u := by
  induction tests generalizing testResults s with
  | nil => exact Or.inl ⟨_, _, _, rfl, rfl⟩
  | cons test tests ih =>
      rcases test with ⟨testName, func⟩
      rw [Console.performTestsLog, performTestsCatching]
      -- The loops stop at the same call, or go on from the same state.
      rcases caught_cases c invoke func s testName with
        ⟨warning, hcaught, hcall⟩ | ⟨u, hcaught, hcall⟩
      · rcases ih (testResults.insert testName (invoke func s).leaving.outcome.result)
          (invoke func s).state with ⟨log, calls, rest, hlog, hrest⟩ | ⟨u, hlog, hrest⟩
        · simp only [hcaught, hlog, hcall, hrest]
          exact Or.inl ⟨_, _, _, rfl, rfl⟩
        · exact Or.inr ⟨u, by simp only [hcaught, hlog], by simp only [hcall, hrest]⟩
      · exact Or.inr ⟨u, by simp only [hcaught], by simp only [hcall]⟩

/-- What the tests log, what is logged about them and what they do to the level
    of the logger has no part in the report. -/
theorem runTestsLog_report (c : Console σ) (invoke : φ → σ → Played σ) (tests : Tests φ) (s : σ) :
    (∃ log report, c.runTestsLog invoke tests s = .ok (log, report) ∧
        runTestsCatching (quietly invoke) tests s = .ok report) ∨
      ∃ u, c.runTestsLog invoke tests s = .error u ∧
        runTestsCatching (quietly invoke) tests s = .error u := by
  unfold Console.runTestsLog runTestsCatching
  rcases performTestsLog_cases c invoke tests.entries SortedMap.empty s with
    ⟨log, calls, rest, hlog, hrest⟩ | ⟨u, hlog, hrest⟩
  · simp only [hlog, hrest]
    exact Or.inl ⟨_, _, rfl, rfl⟩
  · exact Or.inr ⟨u, by simp only [hlog], by simp only [hrest]⟩

/-! ### Reading the log -/

/-- Passed or failed, the indicator is as long. -/
theorem length_indicator (result : Bool) : (indicator result).length = 26 := by
  cases result with
  | true => decide
  | false => decide

/-- The indicator tells a test that passed from one that failed. -/
theorem indicator_injective (result result' : Bool) (h : indicator result = indicator result') :
    result = result' := by
  have hne : indicator true ≠ indicator false := by decide
  cases result with
  | true =>
      cases result' with
      | true => rfl
      | false => exact absurd h hne
  | false =>
      cases result' with
      | true => exact absurd h.symm hne
      | false => rfl

/-- A line for a result says which test it is and how it ended. -/
theorem resultLine_injective (r r' : Str × Bool)
    (h : Console.resultLine r = Console.resultLine r') : r = r' := by
  rw [Console.resultLine, Console.resultLine, List.append_assoc, List.append_assoc] at h
  have hsplit := List.append_inj h (by rw [length_indicator, length_indicator])
  have hname := List.append_cancel_left hsplit.2
  exact Prod.ext hname (indicator_injective _ _ hsplit.1)

/-- No line for a result is the heading. -/
theorem resultLine_ne_heading (r : Str × Bool) :
    Console.resultLine r ≠ str "==== Test results:" := by
  -- A line for a result begins with an escape sequence.
  have hhead : (indicator r.2).head? = some 27 := by
    cases r.2 with
    | true => decide
    | false => decide
  intro h
  have hline := congrArg List.head? h
  rw [Console.resultLine, List.append_assoc, List.head?_append, hhead, Option.some_or] at hline
  exact absurd hline (by decide)

/-- The summary is not the heading either. -/
theorem summary_ne_heading (c : Console σ) (counts : Counts) :
    c.summary counts ≠ str "==== Test results:" := by
  intro h
  have hstart := congrArg (List.take 6) h
  simp only [Console.summary, List.append_assoc] at hstart
  rw [List.take_append_of_le_length (by decide)] at hstart
  exact absurd hstart (by decide)

/-- What comes after the last of the marks is determined. -/
theorem eq_of_append_cons {α : Type} (xs xs' ys ys' : List α) (mark : α) (h : mark ∉ ys)
    (h' : mark ∉ ys') (heq : xs ++ mark :: ys = xs' ++ mark :: ys') : ys = ys' := by
  rcases List.append_eq_append_iff.mp heq with ⟨zs, -, hzs⟩ | ⟨zs, -, hzs⟩
  · cases zs with
    | nil => exact (List.cons.inj hzs).2
    | cons z zs =>
        rw [List.cons_append, List.cons.injEq] at hzs
        exact absurd (hzs.2 ▸ List.mem_append_right zs List.mem_cons_self) h
  · cases zs with
    | nil => exact (List.cons.inj hzs).2.symm
    | cons z zs =>
        rw [List.cons_append, List.cons.injEq] at hzs
        exact absurd (hzs.2 ▸ List.mem_append_right zs List.mem_cons_self) h'

/-- The results of the first loop are those of its calls, in their order. -/
theorem performTests_entries (invoke : φ → σ → Outcome × σ) (tests : Tests φ) (s : σ) :
    (performTests invoke tests.entries SortedMap.empty s).2.1.entries =
      (performTests invoke tests.entries SortedMap.empty s).1.map fun call =>
        (call.testName, call.outcome.result) := by
  rcases performTests_spec invoke tests.entries SortedMap.empty s with ⟨hcalls, hresults⟩
  -- A context is walked in the order of the names.
  have hsorted : ((performTests invoke tests.entries SortedMap.empty s).1.map fun call =>
      (call.testName, call.outcome.result)).Pairwise fun a b => a.1 < b.1 := by
    have htests := tests.sorted
    rw [← hcalls, List.pairwise_map] at htests
    rw [List.pairwise_map]
    exact htests
  -- The calls are in the order of the map already.
  rw [hresults, SortedMap.insertAll_sorted_empty _ hsorted]

/-- The same of the loop with its log, where it ends. -/
theorem performTestsLog_entries (c : Console σ) (invoke : φ → σ → Played σ) (tests : Tests φ)
    (s s' : σ) (log : List Line) (calls : List (Call φ)) (testResults : SortedMap Str Bool)
    (h : c.performTestsLog invoke tests.entries SortedMap.empty s =
      .ok (log, calls, testResults, s')) :
    testResults.entries = calls.map fun call => (call.testName, call.outcome.result) := by
  rcases performTestsLog_cases c invoke tests.entries SortedMap.empty s with
    ⟨_, _, _, hlog, hrest⟩ | ⟨u, hlog, _⟩
  · rw [h, Except.ok.injEq, Prod.mk.injEq, Prod.mk.injEq] at hlog
    rcases hlog with ⟨-, rfl, rfl⟩
    -- The loop has ended, so it is the one in which every call comes back.
    rcases performTestsCatching_cases (quietly invoke) tests.entries SortedMap.empty s with
      ⟨_, hloop⟩ | ⟨_, u, hloop⟩
    · rw [hrest, Except.ok.injEq] at hloop
      have hentries := performTests_entries (settled (quietly invoke)) tests s
      rw [← hloop] at hentries
      exact hentries
    · rw [hrest] at hloop
      simp only [reduceCtorEq] at hloop
  · rw [h] at hlog
    simp only [reduceCtorEq] at hlog

/-- How the log of a run that ends does: with the heading, the results and the
    summary. -/
theorem runTestsLog_log (c : Console σ) (invoke : φ → σ → Played σ) (tests : Tests φ) (s : σ)
    (log : List Line) (report : Report φ σ)
    (hrun : c.runTestsLog invoke tests s = .ok (log, report))
    (h : shouldLog (c.level report.state) .info = true) :
    ∃ before, log = before ++ ⟨.info, str "==== Test results:"⟩ ::
      (report.results.map (fun r => (⟨.info, Console.resultLine r⟩ : Line)) ++
        [⟨.info, c.summary report.counts⟩]) := by
  unfold Console.runTestsLog at hrun
  cases hloop : c.performTestsLog invoke tests.entries SortedMap.empty s with
  | error u =>
      rw [hloop] at hrun
      simp only [reduceCtorEq] at hrun
  | ok performed =>
      rcases performed with ⟨linesBefore, calls, testResults, s'⟩
      have hentries := performTestsLog_entries c invoke tests s s' _ _ _ hloop
      rw [hloop, Except.ok.injEq, Prod.mk.injEq] at hrun
      rcases hrun with ⟨rfl, rfl⟩
      -- At this level there is a line for each result.
      have hlines : c.resultLines s' testResults.entries =
          testResults.entries.map fun r => (⟨.info, Console.resultLine r⟩ : Line) := by
        rw [Console.resultLines, List.map_eq_flatMap]
        simp only [logAt, h, if_true]
      rw [hentries] at hlines
      refine ⟨logAt (c.level s) .info (str "==== Performing tests") ++ linesBefore, ?_⟩
      simp only [hentries, hlines, Report.results, logAt, h, if_true, List.append_assoc,
        List.cons_append, List.nil_append]

/-- Whatever comes before it, equal endings tell of equal results. -/
theorem results_of_endings (before before' : List Line) (results results' : List (Str × Bool))
    (last last' : Str) (hlast : last ≠ str "==== Test results:")
    (hlast' : last' ≠ str "==== Test results:")
    (h : before ++ ⟨.info, str "==== Test results:"⟩ ::
        (results.map (fun r => (⟨.info, Console.resultLine r⟩ : Line)) ++ [⟨.info, last⟩]) =
      before' ++ ⟨.info, str "==== Test results:"⟩ ::
        (results'.map (fun r => (⟨.info, Console.resultLine r⟩ : Line)) ++ [⟨.info, last'⟩])) :
    results = results' := by
  have hmark : ∀ (results : List (Str × Bool)) (last : Str), last ≠ str "==== Test results:" →
      (⟨.info, str "==== Test results:"⟩ : Line) ∉
        results.map (fun r => (⟨.info, Console.resultLine r⟩ : Line)) ++ [⟨.info, last⟩] := by
    intro results last hlast hmem
    rcases List.mem_append.mp hmem with hmem | hmem
    · rcases List.mem_map.mp hmem with ⟨r, -, hline⟩
      exact resultLine_ne_heading r (Line.mk.inj hline).2
    · rw [List.mem_singleton, Line.mk.injEq] at hmem
      exact hlast hmem.2.symm
  -- The heading stands nowhere behind itself.
  have hend := eq_of_append_cons _ _ _ _ _ (hmark results last hlast)
    (hmark results' last' hlast') h
  have hlines := (List.append_inj' hend (by rw [List.length_singleton, List.length_singleton])).1
  -- A line is one result's and no other's.
  have hinj : Function.Injective fun r : Str × Bool => (⟨.info, Console.resultLine r⟩ : Line) := by
    intro r r' hline
    exact resultLine_injective r r' (Line.mk.inj hline).2
  exact List.map_injective_iff.mpr hinj hlines

/-- Whatever the tests have logged: from the log of a run that ends with a level
    at which results are logged, one can tell which tests were run and how each
    of them ended. -/
theorem log_determines_results {φ' σ' : Type} (c : Console σ) (c' : Console σ')
    (invoke : φ → σ → Played σ) (invoke' : φ' → σ' → Played σ') (tests : Tests φ)
    (tests' : Tests φ') (s : σ) (s' : σ') (log : List Line) (report : Report φ σ)
    (report' : Report φ' σ') (hrun : c.runTestsLog invoke tests s = .ok (log, report))
    (hrun' : c'.runTestsLog invoke' tests' s' = .ok (log, report'))
    (h : shouldLog (c.level report.state) .info = true)
    (h' : shouldLog (c'.level report'.state) .info = true) : report.results = report'.results := by
  rcases runTestsLog_log c invoke tests s log report hrun h with ⟨before, hlog⟩
  rcases runTestsLog_log c' invoke' tests' s' log report' hrun' h' with ⟨before', hlog'⟩
  rw [hlog] at hlog'
  exact results_of_endings before before' _ _ _ _ (summary_ne_heading c _)
    (summary_ne_heading c' _) hlog'

/-- A logger at the level `info`. -/
def infoConsole : Console Unit := ⟨fun _ => .info, fun name => (0, name), fun _ _ => str "0.00"⟩

/-- A test that logs a heading of its own, and then returns. -/
def logHeading (func : Bool) (s : Unit) : Played Unit :=
  ⟨.returned func, [⟨.info, str "==== Test results:"⟩], s⟩

/-- That test, registered once and registered twice. -/
theorem log_determines_results_heading : ∃ log report report',
    infoConsole.runTestsLog logHeading (register SortedMap.empty [(str "test_a", true)]) () =
      .ok (log, report) ∧
    infoConsole.runTestsLog logHeading
      (register SortedMap.empty [(str "test_a", true), (str "test_a", false)]) () =
      .ok (log, report') ∧
    report.results = report'.results :=
  ⟨_, _, _, rfl, rfl, log_determines_results infoConsole infoConsole logHeading logHeading
    (register SortedMap.empty [(str "test_a", true)])
    (register SortedMap.empty [(str "test_a", true), (str "test_a", false)]) () () _ _ _ rfl rfl
    rfl rfl⟩

end Testing

end Nanoservices
