import Nanoservices.Core.Bytes

/-!
# String Utilities

`util/stringutils/stringutils.cpp`: trimming a string, writing it in upper case
and splitting it at a delimiter.

`strTrimCopy` searches forwards for the first byte to keep and backwards for
the last, and cuts the substring between. `splitString` extracts tokens from a
`stringstream` with `getline` until an extraction fails. The loop has no bound
of its own; every extraction consumes at least a byte, so the length of the
input bounds it, and `splitLoop` is given that much.

## Main definitions

* `strTrimCopy`: `str_trim_copy`.
* `strToUpperCopy`: `str_toUpper_copy`.
* `StringStream`: What is left of a `stringstream`, and its end-of-file bit.
* `getline`: One extraction up to a delimiter.
* `splitString`: `splitString`.
-/

namespace Nanoservices

/-- `nanoservices::whitespace`. -/
def whitespace : Str := str " \t"

/-- `std::string::npos`, the largest `size_t`. -/
def npos : Nat := 0xFFFFFFFFFFFFFFFF

/-- `find_first_not_of`, with `none` for `npos`. -/
def findFirstNotOf (s set : Str) : Option Nat := s.findIdx? fun c => !set.contains c

/-- `find_last_not_of`, with `none` for `npos`. -/
def findLastNotOf (s set : Str) : Option Nat :=
  (s.reverse.findIdx? fun c => !set.contains c).map fun i => s.length - 1 - i

/-- `substr`: at most `count` bytes from `pos` on, and fewer where the string
    ends before. -/
def substr (s : Str) (pos count : Nat) : Str := (s.drop pos).take count

/-- The length `strEnd - strBegin + 1` that `str_trim_copy` computes, before
    it is taken modulo the width of `size_t`. -/
def strRange (strBegin strEnd : Nat) : Int := (strEnd : Int) - strBegin + 1

/-- `str_trim_copy`. If there is no byte to keep it returns before it searches
    from the back. -/
def strTrimCopy (s : Str) : Str :=
  match findFirstNotOf s whitespace with
  | none => []
  | some strBegin =>
    let strEnd := (findLastNotOf s whitespace).getD npos
    substr s strBegin (strRange strBegin strEnd).toNat

/-- `use_facet<ctype<char>>(locale).toupper(ch)` in the classic locale, which is
    the global one as long as the program does not set another. -/
def toupper (ch : UInt8) : UInt8 := if 97 ≤ ch ∧ ch ≤ 122 then ch - 32 else ch

/-- `str_toUpper_copy`, byte by byte. -/
def strToUpperCopy (s : Str) : Str := s.map toupper

/-- A `stringstream` being read. A delimiter at the end of the input does not
    set the end-of-file bit; the extraction after it does. -/
structure StringStream where
  rest : Str
  eofbit : Bool
  deriving DecidableEq

/-- `getline(ss, token, delimiter)`: the token and the stream after it, or
    nothing when the extraction fails. -/
def getline (ss : StringStream) (delimiter : UInt8) : Option (Str × StringStream) :=
  if ss.eofbit then none
  else match ss.rest.dropWhile (· != delimiter) with
    -- The delimiter is extracted and not stored.
    | _ :: rest => some (ss.rest.takeWhile (· != delimiter), ⟨rest, false⟩)
    -- The end of the input ends the token; an extraction of nothing fails.
    | [] => if ss.rest.isEmpty then none else some (ss.rest, ⟨[], true⟩)

/-- The `while` loop of `splitString`, for at most `fuel` extractions. A token
    that is dropped is not looked at again; the loop goes on with what is left
    of the stream. -/
def splitLoop (delimiter : UInt8) (trimTokens dropEmptyTokens : Bool) :
    Nat → StringStream → List Str
  | 0, _ => []
  | fuel + 1, ss => match getline ss delimiter with
    | none => []
    | some (token, ss') =>
      let token := if trimTokens then strTrimCopy token else token
      if dropEmptyTokens && token.isEmpty then
        splitLoop delimiter trimTokens dropEmptyTokens fuel ss'
      else token :: splitLoop delimiter trimTokens dropEmptyTokens fuel ss'

/-- `splitString`. No input takes more extractions than it has bytes, and one
    that fails. -/
def splitString (input : Str) (delimiter : UInt8) (trimTokens dropEmptyTokens : Bool) : List Str :=
  splitLoop delimiter trimTokens dropEmptyTokens (input.length + 1) ⟨input, false⟩

-- From the splitting test: the empty token between two delimiters is kept.
example : splitString (str "My String  is quite") 32 false false =
    [str "My", str "String", str "", str "is", str "quite"] := by decide

end Nanoservices
