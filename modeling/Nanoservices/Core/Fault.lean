import Nanoservices.Core.Bytes

/-!
# Faults

The ways a call can end other than by returning. The program has one of its
own, throwing `ns_exception`; the rest are undefined behaviour, which the
model makes visible by giving each kind a name instead of leaving the call
without a meaning.

## Main definitions

* `Undefined`: The kinds of undefined behaviour the program can run into.
* `Fault`: A thrown `ns_exception`, undefined behaviour, or no program at all.
-/

namespace Nanoservices

/-- Undefined behaviour. -/
inductive Undefined
  /-- A null pointer is dereferenced. -/
  | nullDereference
  /-- An iterator at the end of its vector is dereferenced. -/
  | pastTheEnd
  /-- An object is read under a type it does not have. -/
  | typeConfusion
  /-- An array is read at an index it does not have. -/
  | outOfBounds
  /-- A recursion is deeper than the stack. -/
  | stackOverflow
  deriving DecidableEq, Repr

/-- How a call ends when it does not return. -/
inductive Fault
  /-- `ns_exception` is thrown, with this message. -/
  | nsException (message : Str)
  /-- Undefined behaviour. -/
  | undefined (u : Undefined)
  /-- The template instantiation the call needs does not compile. -/
  | illFormed
  deriving DecidableEq, Repr

end Nanoservices
