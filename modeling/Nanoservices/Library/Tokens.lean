import Mathlib.Data.List.Basic

/-!
# Tokens of a Delimited List

What a reader that extracts up to a delimiter, again and again until nothing
is left, sees of a list. `List.splitOn` cuts at every delimiter and so reports
an empty piece after a trailing one; the reader has reached the end there and
reports nothing. `tokens` is `splitOn` without that last empty piece.

The two recursion lemmas, `tokens_append_cons` and `tokens_of_not_mem`, are
one extraction each, and a loop of extractions is compared with `tokens`
through them alone.

## Main definitions

* `tokens`: The pieces between delimiters, less an empty one at the end.

## Theorems

* `tokens_nil`: Nothing is read from nothing.
* `tokens_append_cons`: Extraction up to a delimiter.
* `tokens_of_not_mem`: Extraction up to the end.
* `extractionInduction`: Induction along the extractions.
* `not_mem_of_mem_tokens`: No piece holds a delimiter.
* `tokens_intercalate`: Splitting undoes joining.
* `intercalate_tokens_iff`: When joining undoes splitting.
* `tokens_append_iff`: Where a list can be cut before it is read.
* `tokens_flatMap_concat`: Reading pieces that each end with a delimiter.
-/

universe u

namespace Tokens

variable {α : Type u} [DecidableEq α]

/-- The pieces of a list between delimiters. A piece that is both last and empty
    is not reported, since there is nothing left to read it from. -/
def tokens (d : α) (s : List α) : List (List α) :=
  if (s.splitOn d).getLast? = some [] then (s.splitOn d).dropLast else s.splitOn d

/-- Nothing is read from nothing, not even an empty piece. -/
@[simp] theorem tokens_nil (d : α) : tokens d [] = [] := rfl

/-- A piece that a delimiter ends is reported, whatever follows. -/
theorem tokens_append_cons (d : α) (a s : List α) (ha : d ∉ a) :
    tokens d (a ++ d :: s) = a :: tokens d s := by
  have hne : s.splitOn d ≠ [] := List.splitOn_ne_nil d s
  rw [tokens, tokens, List.splitOn_append_cons_self_of_not_mem ha, List.getLast?_cons_of_ne_nil hne,
    List.dropLast_cons_of_ne_nil hne]
  split_ifs with h
  · rfl
  · rfl

/-- A piece that the end of the input ends is reported unless it is empty. -/
theorem tokens_of_not_mem (d : α) (s : List α) (hs : d ∉ s) (hne : s ≠ []) : tokens d s = [s] := by
  rw [tokens, List.splitOn_eq_singleton hs, if_neg]
  rw [List.getLast?_singleton, Option.some.injEq]
  exact hne

/-- Splitting undoes joining, provided the last piece is there to be seen. -/
theorem tokens_intercalate (d : α) (ts : List (List α)) (hd : ∀ t ∈ ts, d ∉ t)
    (hlast : ts.getLast? ≠ some []) : tokens d ([d].intercalate ts) = ts := by
  cases ts with
  | nil => rfl
  | cons t ts =>
      have hsplit := List.splitOn_intercalate d hd (List.cons_ne_nil t ts)
      rw [tokens, hsplit, if_neg hlast]

/-! ### Joining what was read -/

/-- Induction along the extractions: a list is empty, or has no delimiter, or
    has a piece in front of one and a shorter list behind it. -/
@[elab_as_elim]
theorem extractionInduction (d : α) {motive : List α → Prop} (nil : motive [])
    (last : ∀ s, d ∉ s → s ≠ [] → motive s)
    (delimited : ∀ a s, d ∉ a → motive s → motive (a ++ d :: s)) (s : List α) : motive s := by
  induction hn : s.length using Nat.strongRecOn generalizing s with
  | ind n ih =>
      -- The rest behind the first delimiter is shorter.
      by_cases hd : d ∈ s
      · rcases List.eq_append_cons_of_mem hd with ⟨a, r, rfl, ha⟩
        rw [List.length_append, List.length_cons] at hn
        exact delimited a r ha (ih r.length (by omega) r rfl)
      · by_cases hne : s = []
        · rw [hne]
          exact nil
        · exact last s hd hne

/-- No piece holds a delimiter. -/
theorem not_mem_of_mem_tokens (d : α) (s : List α) : ∀ t ∈ tokens d s, d ∉ t := by
  induction s using extractionInduction d with
  | nil =>
      intro t ht
      exact absurd ht List.not_mem_nil
  | last s hs hne =>
      rw [tokens_of_not_mem d s hs hne, List.forall_mem_singleton]
      exact hs
  | delimited a s ha ih =>
      rw [tokens_append_cons d a s ha, List.forall_mem_cons]
      exact ⟨ha, ih⟩

/-- From a list that is not empty at least one piece is read. -/
theorem tokens_ne_nil (d : α) (s : List α) (hne : s ≠ []) : tokens d s ≠ [] := by
  induction s using extractionInduction d with
  | nil => exact absurd rfl hne
  | last s hs _ =>
      rw [tokens_of_not_mem d s hs hne]
      exact List.cons_ne_nil s []
  | delimited a s ha _ =>
      rw [tokens_append_cons d a s ha]
      exact List.cons_ne_nil a _

/-- Joining undoes splitting, except that a delimiter at the end is not seen
    again. -/
theorem intercalate_tokens_iff (d : α) (s : List α) :
    [d].intercalate (tokens d s) = s ↔ s.getLast? ≠ some d := by
  induction s using extractionInduction d with
  | nil => exact iff_of_true rfl (Option.some_ne_none d).symm
  | last s hs hne =>
      rw [tokens_of_not_mem d s hs hne, List.intercalate_singleton]
      refine iff_of_true rfl ?_
      intro h
      exact hs (List.mem_of_getLast? h)
  | delimited a s ha ih =>
      rw [tokens_append_cons d a s ha]
      by_cases hne : s = []
      · -- The delimiter is the last element, and the piece before it is all that is read.
        subst hne
        rw [tokens_nil, List.intercalate_singleton, List.getLast?_concat]
        refine iff_of_false ?_ (not_not.mpr rfl)
        intro h
        exact absurd (List.self_eq_append_right.mp h) (List.cons_ne_nil d [])
      · -- Pieces follow, and the end of the list is the end of the rest.
        rw [List.intercalate_cons_of_ne_nil (tokens_ne_nil d s hne), List.append_assoc,
          List.singleton_append, List.append_cancel_left_eq, List.cons.injEq, eq_self, true_and, ih,
          List.getLast?_append_of_ne_nil a (List.cons_ne_nil d s), List.getLast?_cons_of_ne_nil hne]

/-! ### Reading in parts -/

/-- What ends with a delimiter is read apart from what follows. -/
theorem tokens_append (d : α) (s t : List α) (h : s = [] ∨ s.getLast? = some d) :
    tokens d (s ++ t) = tokens d s ++ tokens d t := by
  induction s using extractionInduction d with
  | nil => rfl
  -- Without a delimiter the list does not end with one.
  | last s hs hne =>
      rcases h with rfl | h
      · exact absurd rfl hne
      · exact absurd (List.mem_of_getLast? h) hs
  | delimited a s ha ih =>
      -- What follows the first delimiter ends as the whole does.
      have hs : s = [] ∨ s.getLast? = some d := by
        by_cases hne : s = []
        · exact Or.inl hne
        · rcases h with h | h
          · exact absurd h (by simp only [List.append_eq_nil_iff, reduceCtorEq, and_false,
              not_false_eq_true])
          · rw [List.getLast?_append_of_ne_nil a (List.cons_ne_nil d s),
              List.getLast?_cons_of_ne_nil hne] at h
            exact Or.inr h
      rw [List.append_assoc, List.cons_append, tokens_append_cons d a _ ha,
        tokens_append_cons d a s ha, ih hs, List.cons_append]

/-- A cut elsewhere is a cut through a piece, which is then seen twice. -/
theorem length_tokens_append (d : α) (s t : List α) (hs : s ≠ []) (ht : t ≠ [])
    (h : s.getLast? ≠ some d) :
    (tokens d (s ++ t)).length + 1 = (tokens d s).length + (tokens d t).length := by
  induction s using extractionInduction d with
  | nil => exact absurd rfl hs
  | last s hds _ =>
      -- The cut is in the first piece of `t`, or `t` is one piece as well.
      rw [tokens_of_not_mem d s hds hs, List.length_singleton]
      by_cases hd : d ∈ t
      · rcases List.eq_append_cons_of_mem hd with ⟨a, r, rfl, ha⟩
        have hsa : d ∉ s ++ a := by
          simp only [List.mem_append, not_or]
          exact ⟨hds, ha⟩
        rw [← List.append_assoc, tokens_append_cons d _ r hsa, tokens_append_cons d a r ha,
          List.length_cons, List.length_cons]
        omega
      · have hst : d ∉ s ++ t := by
          simp only [List.mem_append, not_or]
          exact ⟨hds, hd⟩
        rw [tokens_of_not_mem d _ hst (List.append_ne_nil_of_left_ne_nil hs t),
          tokens_of_not_mem d t hd ht]
        rfl
  | delimited a s ha ih =>
      -- The delimiter here is not the last element.
      have hne : s ≠ [] := by
        rintro rfl
        exact h List.getLast?_concat
      rw [List.getLast?_append_of_ne_nil a (List.cons_ne_nil d s),
        List.getLast?_cons_of_ne_nil hne] at h
      rw [List.append_assoc, List.cons_append, tokens_append_cons d a _ ha,
        tokens_append_cons d a s ha, List.length_cons, List.length_cons, ih hne h]
      omega

/-- A list can be cut in two before it is read exactly behind a delimiter, or at
    one of its ends. -/
theorem tokens_append_iff (d : α) (s t : List α) :
    tokens d (s ++ t) = tokens d s ++ tokens d t ↔ s = [] ∨ t = [] ∨ s.getLast? = some d := by
  constructor
  · intro heq
    by_contra h
    simp only [not_or] at h
    -- One piece would be counted twice.
    have hlength := length_tokens_append d s t h.1 h.2.1 h.2.2
    rw [heq, List.length_append] at hlength
    omega
  · rintro (h | rfl | h)
    · exact tokens_append d s t (Or.inl h)
    · rw [List.append_nil, tokens_nil, List.append_nil]
    · exact tokens_append d s t (Or.inr h)

/-- Pieces that each end with a delimiter are read as they are. -/
theorem tokens_flatMap_concat (d : α) (ts : List (List α)) (hd : ∀ t ∈ ts, d ∉ t) (s : List α) :
    tokens d (ts.flatMap (fun t => t ++ [d]) ++ s) = ts ++ tokens d s := by
  induction ts with
  | nil => rfl
  | cons t ts ih =>
      rw [List.forall_mem_cons] at hd
      rw [List.flatMap_cons, List.append_assoc, List.append_assoc, List.singleton_append,
        tokens_append_cons d t _ hd.1, ih hd.2, List.cons_append]

end Tokens
