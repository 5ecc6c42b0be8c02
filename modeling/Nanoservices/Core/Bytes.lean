import Mathlib.Data.List.Lex
import Mathlib.Data.List.TakeWhile
import Mathlib.Order.Lattice

/-!
# Byte Strings

A `std::string` is its list of bytes. A `char` is a byte, compared as
`char_traits<char>` does, without sign; strings are ordered lexicographically,
which is what `std::less<std::string>` does.

`cString` is what is left of a string once it has been passed as a
`const char *`: everything from the first NUL byte on is out of sight.

## Main definitions

* `Str`: A byte string.
* `str`: The bytes of an ASCII literal.
* `cString`: The bytes before the first NUL.

## Theorems

* `cString_of_not_mem`: A string without NUL is read whole.
-/

namespace Nanoservices

instance instLinearOrderByte : LinearOrder UInt8 where
  le_refl := UInt8.le_refl
  le_trans _ _ _ := UInt8.le_trans
  le_antisymm _ _ := UInt8.le_antisymm
  le_total := UInt8.le_total
  lt_iff_le_not_ge a b := by
    rw [UInt8.not_le]
    exact ⟨fun h => ⟨UInt8.le_of_lt h, h⟩, fun h => h.2⟩
  toDecidableLE := inferInstance

/-- A `std::string`, as the list of its bytes. It may hold NUL bytes. -/
abbrev Str := List UInt8

/-- The bytes of an ASCII literal, one for each of its characters. -/
def str (s : String) : Str := s.toList.map fun c => c.toNat.toUInt8

/-- What a reader of the C string sees: the bytes before the first NUL. -/
def cString (s : Str) : Str := s.takeWhile (· ≠ 0)

/-- A string without a NUL byte is read whole. -/
theorem cString_of_not_mem (s : Str) (h : (0 : UInt8) ∉ s) : cString s = s := by
  refine List.takeWhile_eq_self_iff.mpr ?_
  intro c hc
  have hne : c ≠ 0 := by
    intro h0
    rw [h0] at hc
    exact h hc
  exact decide_eq_true hne

end Nanoservices
