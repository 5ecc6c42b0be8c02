import Nanoservices.Util.Joining

/-!
# Splitting in Parts

Where an input of `splitString` can be cut, and what can come out of it.

An input may be cut behind a delimiter and the parts split one after the other,
whatever the flags are; a cut anywhere else goes through a token, which then
comes out in two (`splitString_append_iff`). Text that arrives in pieces can
therefore be split piece by piece, as long as every piece ends with a
delimiter.

What comes out are tokens without the delimiter, trimmed and not empty where
the flags ask for it, and every list of such tokens comes out of some input.
One input that gives it is the list with a delimiter behind each token, also
behind the last. Written like this nothing is lost, as it is when tokens are
joined (`splitString_terminated`).

## Main definitions

* `Tokenlike`: What the flags promise of a token.
* `terminated`: Tokens with a delimiter behind each of them.

## Theorems

* `splitString_append_iff`: Where a plain splitting can be cut.
* `splitString_chunks`: Splitting piece by piece.
* `splitString_tokenlike`, `splitString_terminated`: What can come out.
* `splitString_range`: The two together.
-/

namespace Nanoservices

/-- A plain splitting can be done in two parts exactly if the first of them ends
    with a delimiter, or one of them is empty. -/
theorem splitString_append_iff (s t : Str) (delimiter : UInt8) :
    splitString (s ++ t) delimiter false false =
        splitString s delimiter false false ++ splitString t delimiter false false ↔
      s = [] ∨ t = [] ∨ s.getLast? = some delimiter := by
  simp only [splitString_plain]
  exact Tokens.tokens_append_iff delimiter s t

/-- With the flags it can be done in two parts under the same condition, since
    they look at one token at a time. -/
theorem splitString_append (s t : Str) (delimiter : UInt8) (trimTokens dropEmptyTokens : Bool)
    (h : s = [] ∨ s.getLast? = some delimiter) :
    splitString (s ++ t) delimiter trimTokens dropEmptyTokens =
      splitString s delimiter trimTokens dropEmptyTokens ++
        splitString t delimiter trimTokens dropEmptyTokens := by
  rw [splitString_eq, splitString_eq, splitString_eq, Tokens.tokens_append delimiter s t h,
    List.map_append, List.filter_append]

/-- Pieces that each end with a delimiter may be split one by one, and what
    comes behind the last of them too. -/
theorem splitString_chunks (chunks : List Str) (rest : Str) (delimiter : UInt8)
    (trimTokens dropEmptyTokens : Bool) (h : ∀ s ∈ chunks, s.getLast? = some delimiter) :
    splitString (chunks.flatten ++ rest) delimiter trimTokens dropEmptyTokens =
      (chunks.flatMap fun s => splitString s delimiter trimTokens dropEmptyTokens) ++
        splitString rest delimiter trimTokens dropEmptyTokens := by
  induction chunks with
  | nil => rfl
  | cons s chunks ih =>
      rw [List.forall_mem_cons] at h
      -- The first piece ends with a delimiter, so it is split off.
      rw [List.flatten_cons, List.append_assoc, splitString_append _ _ _ _ _ (Or.inr h.1), ih h.2,
        List.flatMap_cons, List.append_assoc]

/-- Three lines, of which the last is not ended. -/
theorem splitString_chunks_lines :
    splitString ([str "a, b,", str ","].flatten ++ str "c") 44 true true =
      ([str "a, b,", str ","].flatMap fun s => splitString s 44 true true) ++
        splitString (str "c") 44 true true :=
  splitString_chunks [str "a, b,", str ","] (str "c") 44 true true (by decide)

/-! ### What comes out -/

/-- What the flags promise of a token: it never holds the delimiter, it is
    trimmed if tokens are, and not empty if the empty ones are dropped. -/
structure Tokenlike (delimiter : UInt8) (trimTokens dropEmptyTokens : Bool) (t : Str) : Prop where
  free : delimiter ∉ t
  trimmed : trimTokens = true → Trimmed t
  ne_nil : dropEmptyTokens = true → t ≠ []

/-- Tokens with a delimiter behind each of them, also behind the last. -/
def terminated (delimiter : UInt8) (ts : List Str) : Str := ts.flatMap fun t => t ++ [delimiter]

/-- Trimming leaves a trimmed string with no bytes that were not there. -/
theorem strTrimCopy_trimmed (s : Str) : Trimmed (strTrimCopy s) ∧ ∀ c ∈ strTrimCopy s, c ∈ s := by
  rcases exists_padded s with ⟨p, t, q, rfl, hp, hq, ht⟩
  rw [strTrimCopy_padded p t q hp hq ht]
  refine ⟨ht, ?_⟩
  intro c hc
  exact List.mem_append_left q (List.mem_append_right p hc)

/-- The tokens keep what the flags promise. -/
theorem splitString_tokenlike (s : Str) (delimiter : UInt8) (trimTokens dropEmptyTokens : Bool) :
    ∀ t ∈ splitString s delimiter trimTokens dropEmptyTokens,
      Tokenlike delimiter trimTokens dropEmptyTokens t := by
  intro t ht
  rw [splitString_eq, List.mem_filter, List.mem_map] at ht
  rcases ht with ⟨⟨t', ht', rfl⟩, hdrop⟩
  -- No token has a delimiter in it, and trimming adds none.
  have hfree := Tokens.not_mem_of_mem_tokens delimiter s t' ht'
  constructor
  · -- The token is what was extracted, or what is left of it when it is trimmed.
    split
    · exact fun hmem => hfree ((strTrimCopy_trimmed t').2 delimiter hmem)
    · exact hfree
  · intro htrim
    rw [if_pos htrim]
    exact (strTrimCopy_trimmed t').1
  · rintro hflag hnil
    rw [hnil, hflag] at hdrop
    exact absurd hdrop (by decide)

/-- Tokens that keep what the flags promise come out of their terminated form
    as they are, the empty ones among them too. -/
theorem splitString_terminated (ts : List Str) (delimiter : UInt8)
    (trimTokens dropEmptyTokens : Bool)
    (h : ∀ t ∈ ts, Tokenlike delimiter trimTokens dropEmptyTokens t) :
    splitString (terminated delimiter ts) delimiter trimTokens dropEmptyTokens = ts := by
  -- Nothing follows the last delimiter, so no token comes of it.
  have htokens : Tokens.tokens delimiter (terminated delimiter ts) = ts := by
    have happ := Tokens.tokens_flatMap_concat delimiter ts (fun t ht => (h t ht).free) []
    rw [List.append_nil, Tokens.tokens_nil, List.append_nil] at happ
    exact happ
  have htrim : (ts.map fun t => if trimTokens then strTrimCopy t else t) = ts := by
    -- Trimming does nothing to what is trimmed.
    have hid : ∀ t ∈ ts, (if trimTokens then strTrimCopy t else t) = id t := by
      intro t ht
      split
      · rename_i hflag
        exact strTrimCopy_of_trimmed t ((h t ht).trimmed hflag)
      · rfl
    rw [List.map_congr_left hid, List.map_id]
  rw [splitString_eq, htokens, htrim, List.filter_eq_self]
  intro t ht
  -- No token is dropped: there is no empty one if empty ones are to be dropped.
  cases hdrop : dropEmptyTokens with
  | false => rfl
  | true =>
      have hne := (h t ht).ne_nil hdrop
      simp only [Bool.true_and, Bool.not_eq_true', List.isEmpty_eq_false_iff]
      exact hne

/-- What can come out of a splitting: only tokens that keep what the flags
    promise, and every list of these, from its terminated form. -/
theorem splitString_range (ts : List Str) (delimiter : UInt8) (trimTokens dropEmptyTokens : Bool) :
    ((∃ s, splitString s delimiter trimTokens dropEmptyTokens = ts) ↔
      ∀ t ∈ ts, Tokenlike delimiter trimTokens dropEmptyTokens t) ∧
    ((∃ s, splitString s delimiter trimTokens dropEmptyTokens = ts) ↔
      splitString (terminated delimiter ts) delimiter trimTokens dropEmptyTokens = ts) := by
  have hlike : (∃ s, splitString s delimiter trimTokens dropEmptyTokens = ts) →
      ∀ t ∈ ts, Tokenlike delimiter trimTokens dropEmptyTokens t := by
    rintro ⟨s, rfl⟩
    exact splitString_tokenlike s delimiter trimTokens dropEmptyTokens
  refine ⟨⟨hlike, ?_⟩, ⟨?_, ?_⟩⟩
  · intro h
    exact ⟨_, splitString_terminated ts delimiter trimTokens dropEmptyTokens h⟩
  · intro h
    exact splitString_terminated ts delimiter trimTokens dropEmptyTokens (hlike h)
  · intro h
    exact ⟨_, h⟩

end Nanoservices
