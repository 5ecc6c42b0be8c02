import Nanoservices.Util.Splitting

/-!
# Splitting and Joining

The laws of `splitString` that its callers go by. The two flags are passes over
the tokens of a plain splitting, whatever the delimiter is. Splitting with
trimming undoes joining, also when the tokens were joined with blanks around
them and when inner tokens are empty.

The other way round, joining does not undo splitting. A plain splitting should
keep every empty token, and it keeps the inner ones and the ones at the start;
but the loop ends with the input, and an extraction that has nothing left to
extract fails. A token that is empty because the input ends with a delimiter is
lost, and with it the delimiter.

## Main definitions

* `postprocess`: What the flags ask for, as passes over finished tokens.
* `SplitsLossless`: No token holds the delimiter, and joining gives the input.
* `PaddedToken`: A token and the blanks around it.

## Theorems

* `splitString_postprocess`: The flags are passes over a plain splitting.
* `splitsLossless_iff`: When joining undoes splitting.
* `splitString_paddedTokens`: Splitting undoes joining.
-/

namespace Nanoservices

/-- What the flags ask for, done to finished tokens: trim each of them, then
    drop those that are empty. A token of blanks is dropped only if both are
    asked for. -/
def postprocess (trimTokens dropEmptyTokens : Bool) (tokens : List Str) : List Str :=
  let trimmed := if trimTokens then tokens.map strTrimCopy else tokens
  if dropEmptyTokens then trimmed.filter fun t => !t.isEmpty else trimmed

/-- Without the flags the tokens are those that extractions from the stream
    find, unchanged and all of them. -/
theorem splitString_plain (s : Str) (delimiter : UInt8) :
    splitString s delimiter false false = Tokens.tokens delimiter s := by
  rw [splitString_eq]
  simp only [Bool.false_eq_true, if_false, List.map_id', Bool.false_and, Bool.not_false,
    List.filter_true]

/-- The two passes as one map and one filter over every token, neither of which
    does anything without its flag. -/
theorem postprocess_eq (trimTokens dropEmptyTokens : Bool) (tokens : List Str) :
    postprocess trimTokens dropEmptyTokens tokens =
      (tokens.map fun t => if trimTokens then strTrimCopy t else t).filter
        fun t => !(dropEmptyTokens && t.isEmpty) := by
  have htrim : (if trimTokens then tokens.map strTrimCopy else tokens) =
      tokens.map fun t => if trimTokens then strTrimCopy t else t := by
    -- Without the flag the map is the identity.
    cases trimTokens with
    | true => rfl
    | false => exact (List.map_id' tokens).symm
  rw [postprocess, htrim]
  cases dropEmptyTokens with
  | true => rfl
  | false => exact (List.filter_true _).symm

/-- The loop trims into the variable it extracts into and leaves its body early
    for an empty token, yet the tokens are those of a plain splitting, passed
    over twice. -/
theorem splitString_postprocess (s : Str) (delimiter : UInt8) (trimTokens dropEmptyTokens : Bool) :
    splitString s delimiter trimTokens dropEmptyTokens =
      postprocess trimTokens dropEmptyTokens (splitString s delimiter false false) := by
  rw [splitString_plain, postprocess_eq]
  exact splitString_eq s delimiter trimTokens dropEmptyTokens

/-! ### Joining after splitting -/

/-- A plain splitting loses nothing: no token holds the delimiter, and joining
    the tokens gives the input back. -/
def SplitsLossless (s : Str) (delimiter : UInt8) : Prop :=
  (∀ t ∈ splitString s delimiter false false, delimiter ∉ t) ∧
    [delimiter].intercalate (splitString s delimiter false false) = s

/-- A plain splitting loses nothing exactly if the input does not end with a
    delimiter: there the stream is at its end, and the empty token behind it is
    not extracted. That no token holds the delimiter is so in any case. -/
theorem splitsLossless_iff (s : Str) (delimiter : UInt8) :
    SplitsLossless s delimiter ↔ s.getLast? ≠ some delimiter := by
  -- The equivalence is one about joining the tokens of a stream.
  rw [SplitsLossless, splitString_plain, ← Tokens.intercalate_tokens_iff]
  constructor
  · intro h
    exact h.2
  · intro h
    exact ⟨Tokens.not_mem_of_mem_tokens delimiter s, h⟩

/-- Of the two tokens of `a,` the second, which is empty, is lost, and joining
    gives `a`. -/
theorem not_splitsLossless_trailing : ¬ SplitsLossless (str "a,") 44 := by
  intro h
  -- The one token that is found joins to itself.
  have hjoin : [44].intercalate (splitString (str "a,") 44 false false) = str "a" := by decide
  rw [SplitsLossless, hjoin] at h
  exact absurd h.2 (by decide)

/-! ### Splitting after joining -/

/-- A token as it may stand between delimiters, with blanks around it. The token
    itself neither begins nor ends with a blank, and may be empty. -/
structure PaddedToken where
  before : Str
  token : Str
  after : Str
  before_blank : Blank before
  token_trimmed : Trimmed token
  after_blank : Blank after

/-- The token and its padding, as they are written. -/
def PaddedToken.text (t : PaddedToken) : Str := t.before ++ t.token ++ t.after

/-- Splitting with trimming gives the tokens that were padded and joined, the
    empty ones among them included, provided that the last one is not empty. -/
theorem splitString_paddedTokens (delimiter : UInt8) (hd : delimiter ∉ whitespace)
    (ts : List PaddedToken) (hdt : ∀ t ∈ ts, delimiter ∉ t.token)
    (hlast : ∀ t ∈ ts.getLast?, t.token ≠ []) :
    splitString ([delimiter].intercalate (ts.map PaddedToken.text)) delimiter true false =
      ts.map PaddedToken.token := by
  -- What the structure holds of each token are the side conditions of joining.
  refine splitString_join_padded delimiter hd ts PaddedToken.before PaddedToken.token
    PaddedToken.after ?_ ?_ ?_ hdt hlast
  · intro t _
    exact t.before_blank
  · intro t _
    exact t.after_blank
  · intro t _
    exact t.token_trimmed

/-- A padded token, an empty one in blanks and one without padding. -/
def sampleTokens : List PaddedToken :=
  [⟨str " ", str "x y", str "\t", by decide, by decide, by decide⟩,
    ⟨str "  ", [], [], by decide, by decide, by decide⟩,
    ⟨[], str "z", [], by decide, by decide, by decide⟩]

/-- The three of them, joined and split again. -/
theorem splitString_paddedTokens_sampleTokens :
    splitString (str " x y\t,  ,z") 44 true false = [str "x y", [], str "z"] :=
  splitString_paddedTokens 44 (by decide) sampleTokens (by decide) (by decide)

end Nanoservices
