import Nanoservices.Configuration.CharPointer
import Nanoservices.Logging.LevelNames

/-!
# Initializing the Logger

`logging_initialize` of the `stdout` plugin, which reads the level and the
pattern of the logger from the configuration. It looks both up by pointer, with
names that are short enough, so a null pointer comes back where nothing was
bound, and the default is taken.

After any run of the configuration the logger therefore has the level of the
name that was bound last, as `Logging.LevelNames` has it, and the pattern that
was bound last (`loggingInitialize_lastBinding`).

## Main definitions

* `loggingPatternDefault`: `LOGGING_PATTERN_DEFAULT`.
* `Settings`: What the logger is set to.
* `loggingInitialize`: `logging_initialize`.
* `configured`: The settings that the bindings ask for.

## Theorems

* `loggingInitialize_agrees`: The logger is set as the bindings ask for.
* `loggingInitialize_lastBinding`: So it is after every run.
-/

namespace Nanoservices

namespace Logging

open Nanoservices.Configuration

/-- `LOGGING_PATTERN_DEFAULT` -/
def loggingPatternDefault : Str := str "[%Y-%m-%d %H:%M:%S.%F] [thread %t] %^[%l]%$ %v"

/-- What `set_level` and `set_pattern` of `spdlog` have set. -/
structure Settings where
  level : LevelEnum
  pattern : Str
  deriving DecidableEq

/-- The name of the property that holds the name of the level. -/
def levelProperty : Str := str "nanoservices.logging.level"

/-- The name of the property that holds the pattern. -/
def patternProperty : Str := str "nanoservices.logging.pattern"

/-- `logging_initialize` of the `stdout` plugin: the configuration afterwards
    and the settings. The first argument bounds the calls of
    `logging_level_by_name`. -/
def loggingInitialize (calls : Nat) (properties : Properties) :
    Except Undefined (Properties × Settings) :=
  match (getPropertyCharPtr (some (levelProperty ++ [0])) properties).result with
  | .error u => .error u
  | .ok (properties', levelName) =>
    -- A null pointer is replaced with the default.
    match loggingLevelByName calls (levelName.getD loggingLevelnameDefault) with
    | .error u => .error u
    | .ok level =>
      match (getPropertyCharPtr (some (patternProperty ++ [0])) properties').result with
      | .error u => .error u
      | .ok (properties'', logPattern) =>
        .ok (properties'', ⟨level, logPattern.getD loggingPatternDefault⟩)

/-- The settings that the bindings ask for. -/
def configured (bound : List (Str × Str)) : Settings where
  level := (acceptedNames.lookup (upperForm (cString
    ((lastBinding bound levelProperty).getD loggingLevelnameDefault)))).getD .info
  pattern := (lastBinding bound patternProperty).getD loggingPatternDefault

/-- The name of the level property may be passed as a C string. -/
theorem passable_levelProperty : Passable levelProperty where
  nul_free := by decide
  ne_nil := by decide
  short := by decide

/-- So may that of the pattern. -/
theorem passable_patternProperty : Passable patternProperty where
  nul_free := by decide
  ne_nil := by decide
  short := by decide

/-- A lookup by pointer answers with the last binding, and what it leaves in the
    store is not seen. -/
theorem getPropertyCharPtr_agrees (properties : Properties) (bound : List (Str × Str))
    (h : Agrees properties bound) (name : Str) (hname : Passable name) :
    ∃ properties', (getPropertyCharPtr (some (name ++ [0])) properties).result =
        .ok (properties', lastBinding bound name) ∧ Agrees properties' bound := by
  rcases getProperty_agrees properties bound h name with ⟨hanswer, hagrees⟩
  rw [if_neg hname.ne_nil] at hanswer
  refine ⟨_, ?_, hagrees⟩
  rw [hname.getPropertyCharPtr name [], ← hanswer]

/-- On a configuration that finds what was bound last, the logger is set as the
    bindings ask for. -/
theorem loggingInitialize_agrees (calls : Nat) (properties : Properties)
    (bound : List (Str × Str)) (h : Agrees properties bound) :
    ∃ properties', loggingInitialize (calls + 2) properties =
        .ok (properties', configured bound) ∧ Agrees properties' bound := by
  rcases getPropertyCharPtr_agrees properties bound h _ passable_levelProperty with
    ⟨properties', hlevel, h'⟩
  rcases getPropertyCharPtr_agrees properties' bound h' _ passable_patternProperty with
    ⟨properties'', hpattern, h''⟩
  refine ⟨properties'', ?_, h''⟩
  simp only [loggingInitialize, hlevel, loggingLevelByName_cString, hpattern, configured]

/-- After every run of the configuration from the empty one, the logger is
    initialized with what the run bound last. -/
theorem loggingInitialize_lastBinding (calls : List PointerCall)
    (hpassable : ∀ call ∈ calls, call.Passable) (hreadable : ∀ call ∈ calls, call.toCall.Readable)
    (levelCalls : Nat) :
    ∃ properties answers properties',
      Machine.run pointerStep SortedMap.empty calls = .ok (properties, answers) ∧
      loggingInitialize (levelCalls + 2) properties =
        .ok (properties', configured ((calls.map PointerCall.toCall).flatMap Call.bindings)) := by
  rcases run_agrees _ (List.forall_mem_map.mpr hreadable) with ⟨properties, hrun, hagrees⟩
  rw [← run_pointerStep calls hpassable] at hrun
  rcases loggingInitialize_agrees levelCalls properties _ hagrees with ⟨properties', hinit, _⟩
  exact ⟨properties, _, properties', hrun, hinit⟩

end Logging

end Nanoservices
