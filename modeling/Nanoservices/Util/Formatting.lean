import Nanoservices.Core.Fault
import Nanoservices.Util.Chunks

/-!
# Strings in the Log

The `fmt` formatters of `util/stringutils/stringutils.h`: for a pointer to a
string, for a vector of strings and for a vector of pointers to strings. A
vector is written in brackets, its strings in quotes with commas between.

Nothing is escaped. Where no string holds a quote, a vector can be told from
its text, and `splitString` takes the text apart again: at the quotes, every
second token is a string (`splitString_formatVector`). Quotes in the strings
make texts of different vectors the same.

A null pointer is not written as such; it is dereferenced.

## Main definitions

* `formatPointer`: The formatter of `shared_ptr<string>`.
* `formatVector`: The formatter of `vector<string>`.
* `formatPointers`: The formatter of `vector<shared_ptr<string>>`.

## Theorems

* `splitString_formatVector`: The text, split at the quotes.
* `eq_of_formatVector_eq`: A vector can be told from its text.
* `formatPointers_cases`: What becomes of null pointers.
* `formatPointers_eq_iff`: When vectors of pointers are written the same.
-/

namespace Nanoservices

/-- The quote that the formatters put around a string. -/
def quote : UInt8 := 34

/-- The formatter of `std::shared_ptr<std::string>`, which dereferences the
    pointer without looking at it. -/
def formatPointer : Option Str → Except Undefined Str
  | none => .error .nullDereference
  | some s => .ok s

/-- The formatter of `std::vector<std::string>`: brackets around quoted strings
    with commas between. Nothing in a string is escaped. -/
def formatVector (vec : List Str) : Str :=
  str "[" ++ (if vec.isEmpty then [] else [quote] ++ (str "\",\"").intercalate vec ++ [quote]) ++
    str "]"

/-- `fmt::join` of what the formatter makes of each pointer, from left to right.
    The first null pointer is the end of it. -/
def formatEach : List (Option Str) → Except Undefined (List Str)
  | [] => .ok []
  | p :: ps => match formatPointer p with
    | .error u => .error u
    | .ok s => match formatEach ps with
      | .error u => .error u
      | .ok ss => .ok (s :: ss)

/-- The formatter of `std::vector<std::shared_ptr<std::string>>`, which writes
    what the one for strings does. -/
def formatPointers (vec : List (Option Str)) : Except Undefined Str :=
  match formatEach vec with
  | .error u => .error u
  | .ok ss => .ok (formatVector ss)

/-- The first token is followed by a delimiter and the others. -/
theorem terminated_cons (d : UInt8) (t : Str) (ts : List Str) :
    terminated d (t :: ts) = t ++ [d] ++ terminated d ts := List.flatMap_cons

/-- Strings with quotes and commas between and a quote behind: each of them and
    each of the commas ends with a quote. -/
theorem intercalate_quote (s : Str) (vec : List Str) :
    (str "\",\"").intercalate (s :: vec) ++ [quote] =
      terminated quote ((s :: vec).intersperse (str ",")) := by
  induction vec generalizing s with
  | nil =>
      rw [List.intercalate_singleton, List.intersperse_singleton, terminated_cons]
      exact (List.append_nil _).symm
  | cons s' vec ih =>
      -- The separator is a quote, a comma and a quote: the end of one string, and
      -- a comma that ends with a quote as strings do.
      have hsep : str "\",\"" = [quote] ++ (str "," ++ [quote]) := by decide
      rw [List.intercalate_cons_cons, List.intersperse_cons_cons, terminated_cons, terminated_cons,
        ← ih s', hsep]
      simp only [List.append_assoc]

/-- The text of a vector that is not empty is made of tokens that each end with
    a quote, and a bracket. -/
theorem formatVector_cons (s : Str) (vec : List Str) :
    formatVector (s :: vec) =
      terminated quote (str "[" :: (s :: vec).intersperse (str ",")) ++ str "]" := by
  rw [formatVector, List.isEmpty_cons, terminated_cons, ← intercalate_quote]
  simp only [Bool.false_eq_true, if_false, List.append_assoc]

/-- What the elements and the separator have in common, a list with separators
    has. -/
theorem forall_mem_intersperse {α : Type} (P : α → Prop) (sep : α) (hsep : P sep) (l : List α)
    (h : ∀ a ∈ l, P a) : ∀ a ∈ l.intersperse sep, P a := by
  match l, h with
  | [], _ => exact fun a ha => absurd ha List.not_mem_nil
  | [a], h => exact h
  | a :: b :: l, h =>
      rw [List.forall_mem_cons] at h
      rw [List.intersperse_cons_cons, List.forall_mem_cons, List.forall_mem_cons]
      exact ⟨h.1, hsep, forall_mem_intersperse P sep hsep (b :: l) h.2⟩

/-- Where no string holds a quote, splitting the text at the quotes gives the
    strings, with the commas between them and the brackets around. -/
theorem splitString_formatVector (vec : List Str) (h : ∀ s ∈ vec, quote ∉ s) :
    splitString (formatVector vec) quote false false =
      if vec = [] then [str "[]"]
      else str "[" :: vec.intersperse (str ",") ++ [str "]"] := by
  have hbrackets : (quote ∉ str "[" ∧ quote ∉ str "]") ∧ quote ∉ str "[]" ∧ quote ∉ str "," := by
    decide
  rw [splitString_plain]
  cases vec with
  | nil =>
      exact Tokens.tokens_of_not_mem quote _ hbrackets.2.1 (by decide)
  | cons s vec =>
      -- Neither the brackets nor the commas hold a quote.
      have hfree : ∀ t ∈ str "[" :: (s :: vec).intersperse (str ","), quote ∉ t := by
        rw [List.forall_mem_cons]
        refine ⟨hbrackets.1.1, ?_⟩
        exact forall_mem_intersperse _ (str ",") hbrackets.2.2 (s :: vec) h
      rw [formatVector_cons, terminated, Tokens.tokens_flatMap_concat quote _ hfree,
        Tokens.tokens_of_not_mem quote _ hbrackets.1.2 (by decide), if_neg (List.cons_ne_nil s vec)]

/-- Vectors whose strings hold no quote are told apart by their texts. -/
theorem eq_of_formatVector_eq (vec vec' : List Str) (h : ∀ s ∈ vec, quote ∉ s)
    (h' : ∀ s ∈ vec', quote ∉ s) (heq : formatVector vec = formatVector vec') : vec = vec' := by
  have hsplit := splitString_formatVector vec h
  rw [heq, splitString_formatVector vec' h'] at hsplit
  have hhead : str "[]" ≠ str "[" := by decide
  -- The text of an empty vector begins with a token of its own.
  by_cases hnil : vec = []
  · by_cases hnil' : vec' = []
    · rw [hnil, hnil']
    · rw [if_neg hnil', if_pos hnil, List.cons_append, List.cons.injEq] at hsplit
      exact absurd hsplit.1.symm hhead
  · by_cases hnil' : vec' = []
    · rw [if_pos hnil', if_neg hnil, List.cons_append, List.cons.injEq] at hsplit
      exact absurd hsplit.1 hhead
    · rw [if_neg hnil, if_neg hnil', List.cons_append, List.cons_append, List.cons.injEq,
        List.append_cancel_right_eq] at hsplit
      -- Every second one of the tokens between the brackets is a string.
      have hsecond : ∀ (l : List Str) (i : Nat), (l.intersperse (str ","))[2 * i]? = l[i]? :=
        fun _ _ => List.getElem?_intersperse_two_mul
      ext1 i
      rw [← hsecond vec i, ← hsplit.2, hsecond vec' i]

/-- A null pointer among them is dereferenced; otherwise each of them leads to
    its string. -/
theorem formatEach_eq (vec : List (Option Str)) :
    (none ∈ vec ∧ formatEach vec = .error .nullDereference) ∨
      ∃ ss, vec = ss.map some ∧ formatEach vec = .ok ss := by
  induction vec with
  | nil => exact Or.inr ⟨[], rfl, rfl⟩
  | cons p vec ih =>
      cases p with
      | none => exact Or.inl ⟨List.mem_cons_self, rfl⟩
      | some s =>
          -- The fault is that of a later pointer, or there is none.
          rcases ih with ⟨hmem, herror⟩ | ⟨ss, rfl, hok⟩
          · refine Or.inl ⟨List.mem_cons_of_mem _ hmem, ?_⟩
            simp only [formatEach, formatPointer, herror]
          · refine Or.inr ⟨s :: ss, rfl, ?_⟩
            simp only [formatEach, formatPointer, hok]

/-- No pointer to a string is a null pointer. -/
theorem none_not_mem_map_some (ss : List Str) : none ∉ ss.map some := by
  intro hmem
  rcases List.mem_map.mp hmem with ⟨s, -, hs⟩
  simp only [reduceCtorEq] at hs

/-- The formatter dereferences a null pointer if there is one in the vector, and
    otherwise it writes the strings. -/
theorem formatPointers_cases (vec : List (Option Str)) :
    (none ∈ vec ∧ formatPointers vec = .error .nullDereference) ∨
      ∃ ss, vec = ss.map some ∧ formatPointers vec = .ok (formatVector ss) := by
  unfold formatPointers
  rcases formatEach_eq vec with ⟨hmem, herror⟩ | ⟨ss, hvec, hok⟩
  · exact Or.inl ⟨hmem, by rw [herror]⟩
  · exact Or.inr ⟨ss, hvec, by rw [hok]⟩

/-- A null pointer is dereferenced exactly if there is one. -/
theorem formatPointers_error_iff (vec : List (Option Str)) :
    formatPointers vec = .error .nullDereference ↔ none ∈ vec := by
  rcases formatPointers_cases vec with ⟨hmem, herror⟩ | ⟨ss, rfl, hok⟩
  · exact iff_of_true herror hmem
  · refine iff_of_false ?_ (none_not_mem_map_some ss)
    rw [hok]
    simp only [reduceCtorEq, not_false_eq_true]

/-- A text is written exactly if there is none. -/
theorem formatPointers_ok_iff (vec : List (Option Str)) :
    (∃ text, formatPointers vec = .ok text) ↔ none ∉ vec := by
  rcases formatPointers_cases vec with ⟨hmem, herror⟩ | ⟨ss, rfl, hok⟩
  · refine iff_of_false ?_ (not_not.mpr hmem)
    rintro ⟨text, htext⟩
    rw [herror] at htext
    simp only [reduceCtorEq] at htext
  · exact iff_of_true ⟨_, hok⟩ (none_not_mem_map_some ss)

/-- Every vector of pointers is written, unless there is a null pointer in it:
    that one is dereferenced. Two vectors with no quotes in the strings are
    written the same only if they are the same, but for those that cannot be
    written at all. -/
theorem formatPointers_eq_iff (vec vec' : List (Option Str)) (h : ∀ s, some s ∈ vec → quote ∉ s)
    (h' : ∀ s, some s ∈ vec' → quote ∉ s) :
    (∀ ps, formatPointers ps = .error .nullDereference ↔ none ∈ ps) ∧
      (∀ ps, (∃ text, formatPointers ps = .ok text) ↔ none ∉ ps) ∧
      (formatPointers vec = formatPointers vec' ↔ (none ∈ vec ∧ none ∈ vec') ∨ vec = vec') := by
  refine ⟨formatPointers_error_iff, formatPointers_ok_iff, ?_⟩
  -- A vector that cannot be written ends as another one like it, and never as one
  -- that can.
  rcases formatPointers_cases vec with ⟨hmem, herror⟩ | ⟨ss, rfl, hok⟩
  · rw [herror, eq_comm, formatPointers_error_iff]
    constructor
    · intro hmem'
      exact Or.inl ⟨hmem, hmem'⟩
    · rintro (⟨-, hmem'⟩ | rfl)
      · exact hmem'
      · exact hmem
  · rcases formatPointers_cases vec' with ⟨hmem', herror'⟩ | ⟨ss', rfl, hok'⟩
    · rw [herror', formatPointers_error_iff]
      refine iff_of_false (none_not_mem_map_some ss) ?_
      rintro (⟨hmem, -⟩ | heq)
      · exact none_not_mem_map_some ss hmem
      · exact none_not_mem_map_some ss (heq ▸ hmem')
    · -- Both are written, and the texts tell them apart.
      rw [hok, hok', Except.ok.injEq]
      constructor
      · intro heq
        refine Or.inr (congrArg (List.map some) (eq_of_formatVector_eq ss ss' ?_ ?_ heq))
        · exact fun s hs => h s (List.mem_map_of_mem hs)
        · exact fun s hs => h' s (List.mem_map_of_mem hs)
      · rintro (⟨hmem, -⟩ | heq)
        · exact absurd hmem (none_not_mem_map_some ss)
        · rw [List.map_injective_iff.mpr (fun _ _ => Option.some.inj) heq]

/-- One string with a comma in it is not written as two. -/
theorem formatPointers_eq_iff_comma :
    (∀ ps, formatPointers ps = .error .nullDereference ↔ none ∈ ps) ∧
    (∀ ps, (∃ text, formatPointers ps = .ok text) ↔ none ∉ ps) ∧
    (formatPointers [some (str "a,b")] = formatPointers [some (str "a"), some (str "b")] ↔
      (none ∈ [some (str "a,b")] ∧ none ∈ [some (str "a"), some (str "b")]) ∨
        [some (str "a,b")] = [some (str "a"), some (str "b")]) := by
  refine formatPointers_eq_iff [some (str "a,b")] [some (str "a"), some (str "b")] ?_ ?_
  · intro s hs
    simp only [List.mem_singleton, Option.some.injEq] at hs
    rw [hs]
    decide
  · intro s hs
    simp only [List.mem_cons, Option.some.injEq, List.not_mem_nil, or_false] at hs
    rcases hs with rfl | rfl
    · decide
    · decide

-- With quotes in a string there is no telling.
example : formatVector [str "a\",\"b"] = formatVector [str "a", str "b"] := by decide

end Nanoservices
