import Nanoservices.Logging.Initialize
import Nanoservices.Serialization.Tracing

/-!
# From the Command Line to the Trace

The start of `main`: the configuration is filled from the command line, and the
logger is set from the configuration. What the service code then logs depends on
the command line, through every module in between.

`startup` never fails on a command line that can be read, and the level that it
leaves is that of the last value the command line has for the property. So a
serialization leaves a trace exactly if that value, less the blanks around it
and the case of its letters, is `TRACE` or `ALL` (`trace_iff_configured`).

## Main definitions

* `startup`: The first two lines of `main`.
* `levelName`: The name of the level that the command line asks for.

## Theorems

* `startup_eq`: What `startup` leaves.
* `configured_level_iff`: Which names stand for levels of a kind.
* `trace_iff_configured`: When a serialization leaves a trace, by the command
  line.
-/

namespace Nanoservices

namespace Program

open Nanoservices.Configuration Logging

/-- `configuration::initialize(argc, argv)` and `logging_initialize()`. -/
def startup (levelCalls : Nat) (argc : Int) (argv : ArgumentVector) :
    Except Undefined (Properties × Settings) :=
  match initializeArgv argc argv SortedMap.empty with
  | .error u => .error u
  | .ok properties => loggingInitialize levelCalls properties

/-- The name of the level that the command line asks for. -/
def levelName (argc : Int) (argv : ArgumentVector) : Str :=
  (lastBinding (bindings argc argv) levelProperty).getD loggingLevelnameDefault

/-- A command line that can be read is obeyed. -/
theorem startup_eq (levelCalls : Nat) (argc : Int) (argv : ArgumentVector)
    (h : Configuration.Readable argc argv) :
    ∃ properties, startup (levelCalls + 2) argc argv =
      .ok (properties, configured (bindings argc argv)) := by
  have hempty : Agrees SortedMap.empty [] := by
    intro name
    rfl
  have hagrees := agrees_insertAll SortedMap.empty [] (bindings argc argv) hempty
  rw [List.nil_append] at hagrees
  rcases loggingInitialize_agrees levelCalls _ _ hagrees with ⟨properties, hinit, -⟩
  refine ⟨properties, ?_⟩
  simp only [startup, initializeArgv_eq argc argv h, hinit]

/-- For what is not so of the level `info`, which every other name stands for,
    there is a list of names. -/
theorem configured_level_iff (P : LevelEnum → Bool) (hinfo : P .info = false)
    (bound : List (Str × Str)) :
    P (configured bound).level = true ↔
      upperForm (cString ((lastBinding bound levelProperty).getD loggingLevelnameDefault)) ∈
        (acceptedNames.filter fun entry => P entry.2).map Prod.fst := by
  simp only [configured]
  generalize upperForm (cString ((lastBinding bound levelProperty).getD loggingLevelnameDefault)) =
    form
  constructor
  · intro h
    cases hlookup : acceptedNames.lookup form with
    | none =>
        rw [hlookup, Option.getD_none, hinfo] at h
        exact absurd h Bool.false_ne_true
    | some level =>
        rw [hlookup, Option.getD_some] at h
        rcases List.lookup_eq_some_iff.mp hlookup with ⟨before, after, hnames, -⟩
        have hmem : (form, level) ∈ acceptedNames := by
          rw [hnames]
          exact List.mem_append_right before List.mem_cons_self
        exact List.mem_map_of_mem (f := Prod.fst) (List.mem_filter.mpr ⟨hmem, h⟩)
  · intro h
    rcases List.mem_map.mp h with ⟨entry, hentry, rfl⟩
    rw [List.mem_filter] at hentry
    -- No name is in the table twice.
    have hlookup : ∀ entry ∈ acceptedNames, acceptedNames.lookup entry.1 = some entry.2 := by decide
    rw [hlookup entry hentry.1, Option.getD_some]
    exact hentry.2

/-- Two of the names stand for the level `trace`. -/
theorem configured_level_trace_iff (bound : List (Str × Str)) :
    (configured bound).level = .trace ↔
      upperForm (cString ((lastBinding bound levelProperty).getD loggingLevelnameDefault)) ∈
        [str "TRACE", str "ALL"] := by
  have hnames : (acceptedNames.filter fun entry => entry.2 = .trace).map Prod.fst =
      [str "TRACE", str "ALL"] := by decide
  rw [← hnames, ← configured_level_iff (fun level => level = .trace) rfl, decide_eq_true_iff]

/-- Whether serializing leaves a trace is up to the command line: it does if the
    last value it has for the level of the logger is `TRACE` or `ALL`, in
    letters of any case and between blanks, and not otherwise. So it is with
    deserializing what was serialized. -/
theorem trace_iff_configured (levelCalls : Nat) (argc : Int) (argv : ArgumentVector)
    (h : Configuration.Readable argc argv) :
    ∃ properties settings, startup (levelCalls + 2) argc argv = .ok (properties, settings) ∧
      ∀ (t : Tracer) (u : Uninit) {α : Type} (T : Ty α) (n : Str) (v w : α) (cache : NameCache),
        t.threshold = settings.level → T.Supported → T.CacheOk cache →
        ((traceField t T n v cache).log ≠ [] ↔
          upperForm (cString (levelName argc argv)) ∈ [str "TRACE", str "ALL"]) ∧
        ((traceDecodeField t u T w (encode T n v)).log ≠ [] ↔
          upperForm (cString (levelName argc argv)) ∈ [str "TRACE", str "ALL"]) := by
  rcases startup_eq levelCalls argc argv h with ⟨properties, hstartup⟩
  refine ⟨properties, _, hstartup, ?_⟩
  intro t u α T n v w cache ht _ _
  -- The logs are empty exactly where the level is not `trace`.
  rw [levelName, ← configured_level_trace_iff, ← ht, ne_eq, ne_eq, log_traceField_eq_nil_iff,
    log_traceDecodeField_eq_nil_iff, not_not]
  exact ⟨Iff.rfl, Iff.rfl⟩

/-- `main nanoservices.logging.level " All"` -/
def traceArgv : ArgumentVector := fun i =>
  [str "main", levelProperty, str " All"][i]?

/-- All of its arguments can be read. -/
theorem readable_traceArgv : Configuration.Readable 3 traceArgv := by
  intro i _ hi
  have hlt : i < [str "main", levelProperty, str " All"].length := by
    rw [List.length_cons, List.length_cons, List.length_cons, List.length_nil]
    omega
  exact Option.isSome_iff_exists.mpr ⟨_, List.getElem?_eq_getElem hlt⟩

/-- `All` between blanks asks for the trace. -/
theorem trace_iff_configured_all :
    ∃ properties settings, startup 2 3 traceArgv = .ok (properties, settings) ∧
      ∀ (t : Tracer) (u : Uninit) {α : Type} (T : Ty α) (n : Str) (v w : α) (cache : NameCache),
        t.threshold = settings.level → T.Supported → T.CacheOk cache →
        ((traceField t T n v cache).log ≠ [] ↔
          upperForm (cString (levelName 3 traceArgv)) ∈ [str "TRACE", str "ALL"]) ∧
        ((traceDecodeField t u T w (encode T n v)).log ≠ [] ↔
          upperForm (cString (levelName 3 traceArgv)) ∈ [str "TRACE", str "ALL"]) :=
  trace_iff_configured 0 3 traceArgv readable_traceArgv

end Program

end Nanoservices
