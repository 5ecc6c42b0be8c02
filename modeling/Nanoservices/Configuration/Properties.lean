import Nanoservices.Core.Fault
import Nanoservices.Library.SortedMap

/-!
# The Configuration

`configuration` with the `argc_argv` plugin: a static map of properties that
`initialize` fills from the command line and `get_property` reads.

A lookup that finds nothing is not a pure read. It stores a null pointer under
the name, so that the next lookup of the same name ends in the map, and from
then on the map has an entry that no one bound. Values are therefore optional
here even where they are stored.

The strings of the command line are C strings: `std::string` copies the bytes
before the first NUL.

## Main definitions

* `Properties`: `_properties`.
* `ArgumentVector`: What can be read through `argv`.
* `initializeArgv`: `configuration::initialize`.
* `getProperty`: `configuration::get_property`.

## Theorems

* `find?_getProperty`: What a lookup leaves in the map.
-/

namespace Nanoservices

/-- `configuration::_properties`, with `none` for a stored null pointer. -/
abbrev Properties := SortedMap Str (Option Str)

/-- The memory behind `argv[i]` for each index, where there is any to read. -/
abbrev ArgumentVector := Nat → Option Str

namespace Configuration

/-- `string(argv[i])` -/
def readArgument (argv : ArgumentVector) (i : Nat) : Except Undefined Str :=
  match argv i with
  | none => .error .outOfBounds
  | some s => .ok (cString s)

/-- The loop of `initialize`. The index stays below `argc`, so it does not
    overflow. -/
def initializeLoop (argc : Int) (argv : ArgumentVector) (i : Nat) (properties : Properties) :
    Except Undefined Properties :=
  if (i : Int) < argc - 1 then
    match readArgument argv i with
    | .error u => .error u
    -- `i + 1` is below `argc`, so the name has a value.
    | .ok name => match readArgument argv (i + 1) with
      | .error u => .error u
      | .ok value => initializeLoop argc argv (i + 2) (properties.insert name (some value))
  else .ok properties
termination_by (argc - i).toNat
decreasing_by omega

/-- `configuration::initialize` -/
def initializeArgv (argc : Int) (argv : ArgumentVector) (properties : Properties) :
    Except Undefined Properties :=
  if argc < 3 then .ok properties
  else initializeLoop argc argv 1 properties

/-- `configuration::get_property`, on a `std::string`. -/
def getProperty (propertyName : Str) (properties : Properties) : Properties × Option Str :=
  if propertyName = [] then (properties, some [])
  else match properties.find? propertyName with
    -- The miss is remembered as a null pointer.
    | none => (properties.insert propertyName none, none)
    | some result => (properties, result)

/-- A lookup changes the map under its own name at most, from nothing to a null
    pointer. -/
theorem find?_getProperty (propertyName : Str) (properties : Properties) (name : Str) :
    ((getProperty propertyName properties).1.find? name).join = (properties.find? name).join := by
  unfold getProperty
  by_cases hempty : propertyName = []
  · rw [if_pos hempty]
  · rw [if_neg hempty]
    cases hfind : properties.find? propertyName with
    | some result => rfl
    | none =>
        -- Only the lookup of the missed name sees the new entry.
        rw [SortedMap.find?_insert]
        by_cases hname : name = propertyName
        · rw [if_pos hname, hname, hfind]
          rfl
        · rw [if_neg hname]

/-- A lookup of a name answers with what is stored under it, and a stored null
    pointer is no different from none. -/
theorem getProperty_answer (propertyName : Str) (properties : Properties) (h : propertyName ≠ []) :
    (getProperty propertyName properties).2 = (properties.find? propertyName).join := by
  rw [getProperty, if_neg h]
  cases hfind : properties.find? propertyName with
  | some result => rfl
  | none => rfl

end Configuration

end Nanoservices
