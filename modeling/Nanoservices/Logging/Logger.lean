import Nanoservices.Library.Logged
import Nanoservices.Logging.Level

/-!
# The Logger

What reaches the log. A line is formatted and written if its level is at least
that of the logger, and a program may ask beforehand whether it will be.

`demangle_type_name` of `util/typeutils/demangle.cpp` is here because it is the
one helper that logs on its own account: a line for a name that it has
demangled, and a warning for one that it has not.

## Main definitions

* `Line`: A line of the log.
* `shouldLog`, `logAt`: `should_log`, and the functions that log.
* `demanglingMessage`: The text of the warning.
* `demangleTypeName`: `demangle_type_name`.

## Theorems

* `shouldLog_trace_iff`: Which loggers write lines at the level `trace`.
* `demangleTypeName_result`: A type name comes back, or one message is thrown.
-/

namespace Nanoservices

namespace Logging

/-- A line of the log, without the pattern around it. -/
structure Line where
  level : LevelEnum
  text : Str
  deriving DecidableEq

/-- `spdlog::should_log`, with the level that the logger has. -/
def shouldLog (threshold level : LevelEnum) : Bool := threshold.toIndex ≤ level.toIndex

/-- `spdlog::trace`, `spdlog::info` and so on. -/
def logAt (threshold level : LevelEnum) (text : Str) : List Line :=
  if shouldLog threshold level then [⟨level, text⟩] else []

/-- Lines of the lowest level are for a logger at that level only. -/
theorem shouldLog_trace_iff (threshold : LevelEnum) :
    shouldLog threshold .trace = true ↔ threshold = .trace := by
  cases threshold <;> decide

/-- The text for a type name that is not demangled, by the status of
    `abi::__cxa_demangle`. -/
def demanglingMessage (status : Int) (typeidName : Str) : Str :=
  if status = -1 then str "Demangling failed: memory allocation failure"
  else if status = -2 then
    str "Demangling failed: \"" ++ typeidName ++
      str "\". Mangled name is not a valid name under the C++ mangling rules"
  else if status = -3 then
    str "Demangling failed: \"" ++ typeidName ++ str "\". Invalid argument"
  else str "Demangling failed: \"" ++ typeidName ++ str "\". Unknown error"

/-- `demangle_type_name`, over what `abi::__cxa_demangle` answers: a status and
    a name. -/
def demangleTypeName (threshold : LevelEnum) (cxaDemangle : Str → Int × Str) (typeidName : Str)
    (canThrow : Bool) : Logged Line Fault Str :=
  match cxaDemangle typeidName with
  | (status, callResult) =>
    if status = 0 then
      ⟨logAt threshold .trace (str "Demangling OK: \"" ++ typeidName ++ str "\" -> \"" ++
        callResult ++ str "\""), .ok callResult⟩
    else
      -- The warning is written before the exception is thrown.
      ⟨logAt threshold .warn (demanglingMessage status typeidName),
        if canThrow then .error (.nsException (cString (demanglingMessage status typeidName)))
        else .ok typeidName⟩

/-- Without permission to throw, some name comes back. -/
theorem demangleTypeName_result (threshold : LevelEnum) (cxaDemangle : Str → Int × Str)
    (typeidName : Str) :
    (demangleTypeName threshold cxaDemangle typeidName false).result =
      .ok (if (cxaDemangle typeidName).1 = 0 then (cxaDemangle typeidName).2 else typeidName) := by
  unfold demangleTypeName
  by_cases h : (cxaDemangle typeidName).1 = 0
  · simp only [h, if_true]
  · simp only [h, if_false, Bool.false_eq_true]

end Logging

end Nanoservices
