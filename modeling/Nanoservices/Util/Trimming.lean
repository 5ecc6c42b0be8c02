import Nanoservices.Util.Splitting

/-!
# Trimming Is Exact

What `str_trim_copy` returns, described without looking at how: the part of the
string between the blanks at its ends. A string has one such part and no other
(`strTrimCopy_unique`), so this says everything about the result.

How it is found is index arithmetic. A search from the front and one from the
back give the first and the last byte to keep, and the length of the part is
computed from them in `size_t`, where a subtraction below zero or a sum that is
too large would come out as another number without a sound. Neither happens:
where the first search finds a byte, the second finds it too or a later one.
`strTrimCopySizeT` is the function with that arithmetic, and for every length a
string can have it is `strTrimCopy`.

## Main definitions

* `TrimOf`: What trimming should leave of a string.
* `strRangeSizeT`, `strTrimCopySizeT`: The function as `size_t` computes it.
* `RangeFits`: The computed range is right and lies in the string.

## Theorems

* `findLastNotOf_of_findFirstNotOf`: What the second search finds.
* `rangeFits_of_search`: The searches give a range that fits.
* `strTrimCopySizeT_eq`: Nothing is lost to the width of `size_t`.
* `strTrimCopy_exact`: What trimming leaves, how, and the laws that follow.
-/

namespace Nanoservices

/-- What is left of a string without the blanks at its ends: the rest is blank,
    nothing is left exactly of a blank string, and what is left has no blank at
    either end. -/
structure TrimOf (s t : Str) : Prop where
  padded : ∃ p q, s = p ++ t ++ q ∧ Blank p ∧ Blank q
  empty_iff : t = [] ↔ Blank s
  ends : t ≠ [] → Trimmed t

/-- `strEnd - strBegin + 1`, as the code computes it, in `size_t`. -/
def strRangeSizeT (strBegin strEnd : UInt64) : UInt64 := strEnd - strBegin + 1

/-- `str_trim_copy`, with its arithmetic in `size_t`. -/
def strTrimCopySizeT (s : Str) : Str :=
  match findFirstNotOf s whitespace with
  | none => []
  | some strBegin =>
    let strEnd := (findLastNotOf s whitespace).getD npos
    substr s strBegin (strRangeSizeT (.ofNat strBegin) (.ofNat strEnd)).toNat

/-- The difference of the indices is not negative, the substring does not reach
    beyond the string, and its length is computed without wrapping around if
    that of the string is a `size_t`. -/
structure RangeFits (s : Str) (strBegin strEnd : Nat) : Prop where
  ordered : strBegin ≤ strEnd
  inside : strBegin + (strRange strBegin strEnd).toNat ≤ s.length
  no_wrap : s.length < UInt64.size →
    ((strRangeSizeT (.ofNat strBegin) (.ofNat strEnd)).toNat : Int) = strRange strBegin strEnd

/-! ### The result -/

/-- What `str_trim_copy` returns is such a part. -/
theorem trimOf_strTrimCopy (s : Str) : TrimOf s (strTrimCopy s) := by
  rcases strTrimCopy_spec s with ⟨htrimmed, p, q, hs, hp, hq⟩
  refine ⟨⟨p, q, hs, hp, hq⟩, ⟨?_, ?_⟩, fun _ => htrimmed⟩
  · intro hempty
    rw [hempty, List.append_nil] at hs
    rw [hs]
    exact blank_append p q hp hq
  · intro hblank
    rw [strTrimCopy, findFirstNotOf_blank s hblank]

/-- There is only one part of a string that trimming may leave. -/
theorem strTrimCopy_unique (s t : Str) (h : TrimOf s t) : t = strTrimCopy s := by
  rcases h.padded with ⟨p, q, rfl, hp, hq⟩
  -- The part is trimmed also if it is empty.
  have htrimmed : Trimmed t := by
    by_cases hne : t = []
    · rw [hne]
      exact trimmed_nil
    · exact h.ends hne
  exact (strTrimCopy_padded p t q hp hq htrimmed).symm

/-! ### The arithmetic -/

/-- Where the search from the front finds a byte to keep, the one from the back
    finds it or a later one. -/
theorem findLastNotOf_of_findFirstNotOf (s : Str) (strBegin : Nat)
    (h : findFirstNotOf s whitespace = some strBegin) :
    ∃ strEnd, findLastNotOf s whitespace = some strEnd ∧ strBegin ≤ strEnd ∧
      strEnd < s.length := by
  rcases exists_padded s with ⟨p, t, q, rfl, hp, hq, ht⟩
  by_cases hne : t = []
  · -- Between the blanks is nothing, so the first search finds nothing.
    rw [hne, List.append_nil, findFirstNotOf_blank _ (blank_append p q hp hq)] at h
    simp only [reduceCtorEq] at h
  · have hpos := List.length_pos_iff.mpr hne
    rw [findFirstNotOf_padded p t q hp ht hne, Option.some.injEq] at h
    refine ⟨_, findLastNotOf_padded p t q hq ht hne, ?_, ?_⟩
    · omega
    · rw [List.length_append, List.length_append]
      omega

/-- In `size_t` the length comes out as the number it is, if the indices are in
    order and the string has a length that is a `size_t`. -/
theorem toNat_strRangeSizeT (strBegin strEnd : Nat) (h : strBegin ≤ strEnd)
    (hsize : strEnd + 1 < UInt64.size) :
    (strRangeSizeT (.ofNat strBegin) (.ofNat strEnd)).toNat = strEnd - strBegin + 1 := by
  have hbegin : (UInt64.ofNat strBegin).toNat = strBegin := UInt64.toNat_ofNat_of_lt' (by omega)
  have hend : (UInt64.ofNat strEnd).toNat = strEnd := UInt64.toNat_ofNat_of_lt' (by omega)
  -- So the subtraction does not wrap around.
  have hle : UInt64.ofNat strBegin ≤ UInt64.ofNat strEnd := by
    rw [UInt64.le_iff_toNat_le, hbegin, hend]
    exact h
  -- The length is at most the index behind the last byte.
  have hlength : strEnd - strBegin + 1 < UInt64.size := by omega
  rw [strRangeSizeT, UInt64.toNat_add, UInt64.toNat_sub_of_le _ _ hle, hbegin, hend]
  exact Nat.mod_eq_of_lt hlength

/-- The two indices that the searches find give a range that fits. -/
theorem rangeFits_of_search (s : Str) (strBegin strEnd : Nat) (h : strBegin ≤ strEnd)
    (hend : strEnd < s.length) : RangeFits s strBegin strEnd := by
  refine ⟨h, ?_, ?_⟩
  · unfold strRange
    omega
  · intro hsize
    rw [toNat_strRangeSizeT strBegin strEnd h (by omega), strRange]
    omega

/-- In a string whose length is a `size_t` nothing is lost to the width of the
    arithmetic. -/
theorem strTrimCopySizeT_eq (s : Str) (hsize : s.length < UInt64.size) :
    strTrimCopySizeT s = strTrimCopy s := by
  rw [strTrimCopySizeT, strTrimCopy]
  cases hbegin : findFirstNotOf s whitespace with
  | none => rfl
  | some strBegin =>
      -- Where the first search finds a byte, the second finds one that is not
      -- before it.
      rcases findLastNotOf_of_findFirstNotOf s strBegin hbegin with ⟨strEnd, hend, hle, hlt⟩
      have hrange := (rangeFits_of_search s strBegin strEnd hle hlt).no_wrap hsize
      simp only [hend, Option.getD_some, ← hrange, Int.toNat_natCast]

/-- Trimming leaves the one part of a string between the blanks at its ends. The
    range of it that the searches give fits, and is the same in `size_t`. So
    trimming again changes nothing, and neither do further blanks. -/
theorem strTrimCopy_exact (s : Str) :
    (TrimOf s (strTrimCopy s) ∧ ∀ t, TrimOf s t → t = strTrimCopy s) ∧
    (∀ strBegin, findFirstNotOf s whitespace = some strBegin →
      ∃ strEnd, findLastNotOf s whitespace = some strEnd ∧ RangeFits s strBegin strEnd) ∧
    (s.length < UInt64.size → strTrimCopySizeT s = strTrimCopy s) ∧
    strTrimCopy (strTrimCopy s) = strTrimCopy s ∧
    ∀ p q, Blank p → Blank q → strTrimCopy (p ++ s ++ q) = strTrimCopy s := by
  refine ⟨⟨trimOf_strTrimCopy s, strTrimCopy_unique s⟩, ?_, strTrimCopySizeT_eq s, ?_, ?_⟩
  · intro strBegin hbegin
    rcases findLastNotOf_of_findFirstNotOf s strBegin hbegin with ⟨strEnd, hend, hle, hlt⟩
    exact ⟨strEnd, hend, rangeFits_of_search s strBegin strEnd hle hlt⟩
  · exact strTrimCopy_of_trimmed _ (strTrimCopy_spec s).1
  · intro p q hp hq
    exact strTrimCopy_pad p s q hp hq

/-- A string with a blank inside, which is kept, and blanks around it, which are
    not. -/
theorem strTrimCopy_exact_sample :
    str "a b" = strTrimCopy (str " \ta b ") ∧
      strTrimCopySizeT (str " \ta b ") = strTrimCopy (str " \ta b ") ∧
      (∃ strEnd, findLastNotOf (str " \ta b ") whitespace = some strEnd ∧
        RangeFits (str " \ta b ") 2 strEnd) ∧
      strTrimCopy (str "\t" ++ str " \ta b " ++ []) = strTrimCopy (str " \ta b ") := by
  rcases strTrimCopy_exact (str " \ta b ") with ⟨⟨_, hunique⟩, hrange, hsize, _, hpad⟩
  have htrim : TrimOf (str " \ta b ") (str "a b") := by
    refine ⟨⟨str " \t", str " ", rfl, by decide, by decide⟩, by decide, ?_⟩
    intro _
    decide
  exact ⟨hunique _ htrim, hsize (by decide), hrange 2 (by decide), hpad _ _ (by decide) (by decide)⟩

end Nanoservices
