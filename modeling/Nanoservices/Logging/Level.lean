import Nanoservices.Core.Fault
import Nanoservices.Util.StringUtils

/-!
# Logging Levels

`logging_level_by_name` of `plugins/logging/logging.cpp`, with the parts of
`spdlog` that it answers to: the enumeration of levels, their names, and
`from_str`, which looks a name up.

The names are listed twice. `spdlog` has a table in the order of the
enumeration, in lower case, and two short names that `from_str` knows besides.
`logging_level_by_name` has a chain of comparisons in upper case, and calls
itself with the name of the default level when none of them holds.

## Main definitions

* `LevelEnum`: `spdlog::level::level_enum`.
* `levelStringViews`, `toStringView`, `fromStr`: Names and levels in `spdlog`.
* `loggingLevelnameDefault`: `LOGGING_LEVELNAME_DEFAULT`.
* `loggingLevelByName`: `logging_level_by_name`.
-/

namespace Nanoservices

namespace Logging

/-- `spdlog::level::level_enum`. The last enumerator counts the levels and is
    none itself. -/
inductive LevelEnum
  | trace
  | debug
  | info
  | warn
  | err
  | critical
  | off
  | nLevels
  deriving DecidableEq, Repr

/-- The value of an enumerator. -/
def LevelEnum.toIndex : LevelEnum → Nat
  | .trace => 0
  | .debug => 1
  | .info => 2
  | .warn => 3
  | .err => 4
  | .critical => 5
  | .off => 6
  | .nLevels => 7

/-- `static_cast<level::level_enum>`, of a value that an enumerator has. -/
def LevelEnum.ofIndex : Nat → LevelEnum
  | 0 => .trace
  | 1 => .debug
  | 2 => .info
  | 3 => .warn
  | 4 => .err
  | 5 => .critical
  | 6 => .off
  | _ => .nLevels

/-- `level_string_views`, initialized with `SPDLOG_LEVEL_NAMES`. -/
def levelStringViews : List Str :=
  [str "trace", str "debug", str "info", str "warning", str "error", str "critical", str "off"]

/-- `spdlog::level::to_string_view` -/
def toStringView (l : LevelEnum) : Except Undefined Str :=
  match levelStringViews[l.toIndex]? with
  | none => .error .outOfBounds
  | some name => .ok name

/-- `spdlog::level::from_str` -/
def fromStr (name : Str) : LevelEnum :=
  match levelStringViews.idxOf? name with
  | some it => .ofIndex it
  | none =>
    if name = str "warn" then .warn
    else if name = str "err" then .err
    else .off

/-- `LOGGING_LEVELNAME_DEFAULT` -/
def loggingLevelnameDefault : Str := str "info"

/-- `logging_level_by_name`. The first argument bounds the recursion: the call
    itself and the calls it makes of itself are no more than that. -/
def loggingLevelByName : Nat → Str → Except Undefined LevelEnum
  | 0, _ => .error .stackOverflow
  | calls + 1, name =>
    let trimmedAndUppered := strToUpperCopy (strTrimCopy (cString name))
    if trimmedAndUppered = str "OFF" then .ok .off
    else if trimmedAndUppered = str "FATAL" ∨ trimmedAndUppered = str "CRITICAL" then .ok .critical
    else if trimmedAndUppered = str "ERROR" ∨ trimmedAndUppered = str "ERR" then .ok .err
    else if trimmedAndUppered = str "WARN" then .ok .warn
    else if trimmedAndUppered = str "INFO" then .ok .info
    else if trimmedAndUppered = str "DEBUG" then .ok .debug
    else if trimmedAndUppered = str "TRACE" ∨ trimmedAndUppered = str "ALL" then .ok .trace
    -- In case none: the default has a level of its own.
    else loggingLevelByName calls loggingLevelnameDefault

end Logging

end Nanoservices
