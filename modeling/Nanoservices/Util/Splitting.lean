import Mathlib.Data.List.Induction
import Nanoservices.Library.Tokens
import Nanoservices.Util.StringUtils

/-!
# What Trimming and Splitting Compute

The specifications of the string utilities, one lemma per function, stated so
that nothing after this module unfolds the index arithmetic or the extraction
loop.

Trimming is described by the decomposition it undoes: a string is a blank
prefix, a part that begins and ends with bytes to keep, and a blank suffix.
`exists_padded` says every string has that shape and `strTrimCopy_padded` that
the middle part is what comes out.

Splitting is `Tokens.tokens` followed by two independent passes, one for each
flag. The extraction loop reuses the variable it trims, so this needs the loop
invariant that what is left of the stream never depends on what was done to a
token; `splitLoop_eq` is that induction.

## Main definitions

* `Blank`: Nothing but spaces and tabs.
* `Trimmed`: Neither begins nor ends with a space or tab.

## Theorems

* `strTrimCopy_padded`: Trimming removes the padding and nothing else.
* `strTrimCopy_of_trimmed`: A trimmed part is left as it is.
* `exists_padded`: Every string is padding around a trimmed part.
* `strTrimCopy_spec`: What trimming keeps and what it cuts off.
* `strTrimCopy_pad`: Further padding is trimmed as well.
* `strTrimCopy_map`: Trimming commutes with what keeps blanks apart.
* `getline_delimited`: An extraction that a delimiter ends.
* `getline_last`: An extraction that the end of the input ends.
* `splitString_eq`: Splitting is tokens, then trimming, then dropping.
* `splitString_join_padded`: Splitting undoes joining padded tokens.
-/

namespace Nanoservices

/-- Nothing but spaces and tabs, which is what trimming takes away. -/
def Blank (s : Str) : Prop := ∀ c ∈ s, c ∈ whitespace

/-- Whether a string is blank is found out byte by byte. -/
instance instDecidableBlank (s : Str) : Decidable (Blank s) := List.decidableBAll _ s

/-- Neither the first nor the last byte is a space or a tab. -/
def Trimmed (s : Str) : Prop :=
  (∀ c ∈ s.head?, c ∉ whitespace) ∧ (∀ c ∈ s.getLast?, c ∉ whitespace)

/-- Whether a string is trimmed is seen at its two ends. -/
instance instDecidableTrimmed (s : Str) : Decidable (Trimmed s) :=
  @instDecidableAnd _ _ (Option.decidableForallMem s.head?) (Option.decidableForallMem s.getLast?)

/-- The bytes that are trimmed are the space and the tab. -/
theorem mem_whitespace_iff (c : UInt8) : c ∈ whitespace ↔ c = 32 ∨ c = 9 := by
  have hbytes : whitespace = [32, 9] := rfl
  rw [hbytes, List.mem_pair]

/-- There is nothing to keep in the empty string. -/
theorem blank_nil : Blank [] := by
  intro c hc
  exact absurd hc List.not_mem_nil

/-- The empty string has no end at which a blank could be. -/
theorem trimmed_nil : Trimmed [] := by
  constructor
  · intro c hc
    simp only [List.head?_nil, Option.mem_def, reduceCtorEq] at hc
  · intro c hc
    simp only [List.getLast?_nil, Option.mem_def, reduceCtorEq] at hc

/-- Blanks behind blanks are blanks. -/
theorem blank_append (p q : Str) (hp : Blank p) (hq : Blank q) : Blank (p ++ q) := by
  intro c hc
  exact (List.mem_append.mp hc).elim (hp c) (hq c)

/-! ### Trimming -/

/-- A search for a byte to keep stops right behind a blank prefix. -/
theorem findIdx?_blank_append (p : Str) (hp : Blank p) (c : UInt8) (hc : c ∉ whitespace) (s : Str) :
    (p ++ c :: s).findIdx? (fun c => !whitespace.contains c) = some p.length := by
  induction p with
  | nil =>
      have hkeep : whitespace.contains c = false := by
        rw [Bool.eq_false_iff]
        intro h
        exact hc (List.contains_iff_mem.mp h)
      rw [List.nil_append, List.findIdx?_cons, hkeep]
      rfl
  -- A blank is passed over.
  | cons a p ih =>
      rw [Blank, List.forall_mem_cons] at hp
      rw [List.cons_append, List.findIdx?_cons, ih hp.2]
      simp only [List.contains_iff_mem.mpr hp.1, Bool.not_true, Bool.false_eq_true, if_false,
        Option.map_some, List.length_cons]

/-- In blanks nothing to keep is found. -/
theorem findFirstNotOf_blank (s : Str) (hs : Blank s) : findFirstNotOf s whitespace = none := by
  refine List.findIdx?_eq_none_iff.mpr ?_
  intro c hc
  rw [List.contains_iff_mem.mpr (hs c hc), Bool.not_true]

/-- The search from the front finds the first byte of the trimmed part, right
    behind the padding. -/
theorem findFirstNotOf_padded (p t q : Str) (hp : Blank p) (ht : Trimmed t) (hne : t ≠ []) :
    findFirstNotOf (p ++ t ++ q) whitespace = some p.length := by
  cases t with
  | nil => exact absurd rfl hne
  | cons c t =>
      rw [findFirstNotOf, List.append_assoc, List.cons_append]
      exact findIdx?_blank_append p hp c (ht.1 c rfl) (t ++ q)

/-- The search from the back finds its last byte, right before the padding. -/
theorem findLastNotOf_padded (p t q : Str) (hq : Blank q) (ht : Trimmed t) (hne : t ≠ []) :
    findLastNotOf (p ++ t ++ q) whitespace = some (p.length + t.length - 1) := by
  rcases List.eq_nil_or_concat' t with rfl | ⟨t', c, rfl⟩
  · exact absurd rfl hne
  · -- Seen from the back, the last byte to keep comes right behind the blanks.
    have hc : c ∉ whitespace := by
      refine ht.2 c ?_
      rw [List.getLast?_concat]
      rfl
    have hrev : (p ++ (t' ++ [c]) ++ q).reverse = q.reverse ++ c :: (p ++ t').reverse := by
      simp only [List.reverse_append, List.reverse_cons, List.reverse_nil, List.nil_append,
        List.cons_append]
    have hq' : Blank q.reverse := by
      intro a ha
      exact hq a (List.mem_reverse.mp ha)
    rw [findLastNotOf, hrev, findIdx?_blank_append q.reverse hq' c hc, Option.map_some]
    simp only [List.length_append, List.length_reverse, List.length_singleton]
    congr 1
    omega

/-- Trimming removes blank padding on either side and nothing else. The trimmed
    part may hold blanks, and may be empty. -/
theorem strTrimCopy_padded (p t q : Str) (hp : Blank p) (hq : Blank q) (ht : Trimmed t) :
    strTrimCopy (p ++ t ++ q) = t := by
  by_cases hne : t = []
  · -- Nothing to keep: the search finds nothing, and the result is empty.
    subst hne
    have hblank : Blank (p ++ [] ++ q) := by
      rw [List.append_nil]
      exact blank_append p q hp hq
    rw [strTrimCopy, findFirstNotOf_blank _ hblank]
  · have hpos : 0 < t.length := List.length_pos_iff.mpr hne
    have hrange : (strRange p.length (p.length + t.length - 1)).toNat = t.length := by
      unfold strRange
      omega
    rw [strTrimCopy, findFirstNotOf_padded p t q hp ht hne, findLastNotOf_padded p t q hq ht hne]
    simp only [Option.getD_some, hrange]
    rw [substr, List.append_assoc, List.drop_left, List.take_left]

/-- Where there is nothing to trim, nothing is trimmed. -/
theorem strTrimCopy_of_trimmed (t : Str) (ht : Trimmed t) : strTrimCopy t = t := by
  have htrim := strTrimCopy_padded [] t [] blank_nil blank_nil ht
  rw [List.nil_append, List.append_nil] at htrim
  exact htrim

/-- Every string is blanks before a part that begins with a byte to keep, or
    before nothing. -/
theorem exists_blank_prefix (s : Str) :
    ∃ p s', s = p ++ s' ∧ Blank p ∧ ∀ c ∈ s'.head?, c ∉ whitespace := by
  induction s with
  | nil => exact ⟨[], [], rfl, blank_nil, trimmed_nil.1⟩
  | cons c s ih =>
      -- A blank in front belongs to the prefix, and any other byte ends it.
      by_cases hc : c ∈ whitespace
      · rcases ih with ⟨p, s', rfl, hp, hs'⟩
        exact ⟨c :: p, s', rfl, List.forall_mem_cons.mpr ⟨hc, hp⟩, hs'⟩
      · refine ⟨[], c :: s, rfl, blank_nil, ?_⟩
        intro a ha
        rw [List.head?_cons, Option.mem_some_iff] at ha
        rw [← ha]
        exact hc

/-- If a string begins with a byte to keep, it is a trimmed part before
    blanks. -/
theorem exists_blank_suffix (s : Str) (hs : ∀ c ∈ s.head?, c ∉ whitespace) :
    ∃ t q, s = t ++ q ∧ Blank q ∧ Trimmed t := by
  induction s using List.reverseRecOn with
  | nil => exact ⟨[], [], rfl, blank_nil, trimmed_nil⟩
  | append_singleton s c ih =>
      -- A blank at the end belongs to the suffix, and any other byte ends it.
      by_cases hc : c ∈ whitespace
      · have hhead : ∀ a ∈ s.head?, a ∉ whitespace := by
          intro a ha
          refine hs a ?_
          rw [List.head?_append, Option.mem_def.mp ha]
          rfl
        rcases ih hhead with ⟨t, q, rfl, hq, ht⟩
        refine ⟨t, q ++ [c], List.append_assoc t q [c], blank_append q [c] hq ?_, ht⟩
        exact List.forall_mem_singleton.mpr hc
      · refine ⟨s ++ [c], [], (List.append_nil _).symm, blank_nil, hs, ?_⟩
        intro a ha
        rw [List.getLast?_concat, Option.mem_some_iff] at ha
        rw [← ha]
        exact hc

/-- Every string is a trimmed part between blanks. So what trimming does to
    padding it does to all strings. -/
theorem exists_padded (s : Str) :
    ∃ p t q, s = p ++ t ++ q ∧ Blank p ∧ Blank q ∧ Trimmed t := by
  rcases exists_blank_prefix s with ⟨p, s', rfl, hp, hs'⟩
  rcases exists_blank_suffix s' hs' with ⟨t, q, rfl, hq, ht⟩
  exact ⟨p, t, q, (List.append_assoc p t q).symm, hp, hq, ht⟩

/-- Trimming keeps a trimmed part and cuts blanks off. -/
theorem strTrimCopy_spec (s : Str) :
    Trimmed (strTrimCopy s) ∧ ∃ p q, s = p ++ strTrimCopy s ++ q ∧ Blank p ∧ Blank q := by
  rcases exists_padded s with ⟨p, t, q, rfl, hp, hq, ht⟩
  rw [strTrimCopy_padded p t q hp hq ht]
  exact ⟨ht, p, q, rfl, hp, hq⟩

/-- Blanks put around a string are trimmed together with its own. -/
theorem strTrimCopy_pad (p s q : Str) (hp : Blank p) (hq : Blank q) :
    strTrimCopy (p ++ s ++ q) = strTrimCopy s := by
  rcases exists_padded s with ⟨p', t, q', rfl, hp', hq', ht⟩
  -- The blanks on either side make up one padding.
  have hassoc : p ++ (p' ++ t ++ q') ++ q = (p ++ p') ++ t ++ (q' ++ q) := by
    simp only [List.append_assoc]
  rw [hassoc, strTrimCopy_padded _ t _ (blank_append p p' hp hp') (blank_append q' q hq' hq) ht,
    strTrimCopy_padded p' t q' hp' hq' ht]

/-- Changing bytes before trimming or after it is the same, as long as blanks
    and only blanks become blanks. -/
theorem strTrimCopy_map (f : UInt8 → UInt8) (hf : ∀ c, f c ∈ whitespace ↔ c ∈ whitespace)
    (s : Str) :
    strTrimCopy (s.map f) = (strTrimCopy s).map f := by
  rcases exists_padded s with ⟨p, t, q, rfl, hp, hq, ht⟩
  have hblank : ∀ r : Str, Blank r → Blank (r.map f) := by
    intro r hr
    rw [Blank, List.forall_mem_map]
    intro c hc
    exact (hf c).mpr (hr c hc)
  -- The ends of the trimmed part are still bytes to keep.
  have htrimmed : Trimmed (t.map f) := by
    constructor
    · intro c hc
      rw [List.head?_map, Option.mem_def, Option.map_eq_some_iff] at hc
      rcases hc with ⟨a, ha, rfl⟩
      exact (hf a).not.mpr (ht.1 a ha)
    · intro c hc
      rw [List.getLast?_map, Option.mem_def, Option.map_eq_some_iff] at hc
      rcases hc with ⟨a, ha, rfl⟩
      exact (hf a).not.mpr (ht.2 a ha)
  rw [List.map_append, List.map_append, strTrimCopy_padded p t q hp hq ht,
    strTrimCopy_padded _ _ _ (hblank p hp) (hblank q hq) htrimmed]

/-! ### Splitting -/

/-- An extraction that a delimiter ends leaves what comes after it. -/
theorem getline_delimited (d : UInt8) (a s : Str) (ha : d ∉ a) :
    getline ⟨a ++ d :: s, false⟩ d = some (a, ⟨s, false⟩) := by
  have hkeep : ∀ c ∈ a, (c != d) = true := by
    intro c hc
    rw [bne_iff_ne]
    intro h
    rw [h] at hc
    exact ha hc
  -- The delimiter is where the search stops, and is dropped.
  have hdrop : (a ++ d :: s).dropWhile (· != d) = d :: s := by
    rw [List.dropWhile_append_of_pos hkeep, List.dropWhile_cons, bne_self_eq_false]
    rfl
  have htake : (a ++ d :: s).takeWhile (· != d) = a := by
    rw [List.takeWhile_append_of_pos hkeep, List.takeWhile_cons, bne_self_eq_false]
    exact List.append_nil a
  simp only [getline, hdrop, htake, Bool.false_eq_true, if_false]

/-- An extraction that the end of the input ends sets the end-of-file bit, and
    fails if there was nothing to extract. -/
theorem getline_last (d : UInt8) (s : Str) (hs : d ∉ s) :
    getline ⟨s, false⟩ d = if s.isEmpty then none else some (s, ⟨[], true⟩) := by
  have hdrop : s.dropWhile (· != d) = [] := by
    rw [List.dropWhile_eq_nil_iff]
    intro c hc
    rw [bne_iff_ne]
    intro h
    rw [h] at hc
    exact hs hc
  simp only [getline, hdrop, Bool.false_eq_true, if_false]

/-- Once the end-of-file bit is set, an extraction fails. -/
theorem getline_eofbit (d : UInt8) (s : Str) : getline ⟨s, true⟩ d = none := rfl

/-- What is left of the stream is all the loop depends on: whatever is done to
    a token, the next extraction starts behind it. -/
theorem splitLoop_eq (d : UInt8) (trim drop : Bool) (fuel : Nat) (s : Str) (h : s.length < fuel) :
    splitLoop d trim drop fuel ⟨s, false⟩ =
      ((Tokens.tokens d s).map fun t => if trim then strTrimCopy t else t).filter
        fun t => !(drop && t.isEmpty) := by
  induction fuel generalizing s with
  | zero => omega
  | succ fuel ih =>
      by_cases hd : d ∈ s
      · -- A delimiter ends the first token, and the loop goes on behind it.
        rcases List.eq_append_cons_of_mem hd with ⟨a, r, rfl, ha⟩
        rw [List.length_append, List.length_cons] at h
        rw [splitLoop, getline_delimited d a r ha, Tokens.tokens_append_cons d a r ha,
          List.map_cons, List.filter_cons, ← ih r (by omega)]
        -- The token is dropped or kept, and the rest of the stream is the same.
        cases hdrop : drop && (if trim then strTrimCopy a else a).isEmpty with
        | true => simp only [hdrop, if_true, Bool.not_true, Bool.false_eq_true, if_false]
        | false => simp only [hdrop, if_true, Bool.not_false, Bool.false_eq_true, if_false]
      · cases s with
        | nil => simp only [splitLoop, getline_last d [] hd, List.isEmpty_nil, if_true,
            Tokens.tokens_nil, List.map_nil, List.filter_nil]
        | cons c s =>
            -- The last token: the extraction after it fails on the end-of-file bit.
            have hend : splitLoop d trim drop fuel ⟨[], true⟩ = [] := by
              cases fuel with
              | zero => rfl
              | succ n => rw [splitLoop, getline_eofbit]
            rw [splitLoop, getline_last d (c :: s) hd,
              Tokens.tokens_of_not_mem d (c :: s) hd (List.cons_ne_nil c s), List.map_singleton,
              List.filter_cons, List.filter_nil]
            simp only [List.isEmpty_cons, Bool.false_eq_true, if_false, hend]
            cases drop && (if trim then strTrimCopy (c :: s) else c :: s).isEmpty with
            | true => simp only [if_true, Bool.not_true, Bool.false_eq_true, if_false]
            | false => simp only [if_true, Bool.not_false, Bool.false_eq_true, if_false]

/-- The four flag combinations are one tokenization and two independent passes
    over it: trim each token, drop the empty ones. -/
theorem splitString_eq (s : Str) (d : UInt8) (trim drop : Bool) :
    splitString s d trim drop =
      ((Tokens.tokens d s).map fun t => if trim then strTrimCopy t else t).filter
        fun t => !(drop && t.isEmpty) :=
  splitLoop_eq d trim drop (s.length + 1) s (Nat.lt_succ_self _)

/-- Splitting with trimming undoes joining, whatever blanks were put around
    the tokens. -/
theorem splitString_join_padded {α : Type} (d : UInt8) (hd : d ∉ whitespace) (ts : List α)
    (before token after : α → Str) (hb : ∀ t ∈ ts, Blank (before t))
    (ha : ∀ t ∈ ts, Blank (after t)) (htrim : ∀ t ∈ ts, Trimmed (token t))
    (hdt : ∀ t ∈ ts, d ∉ token t) (hlast : ∀ t ∈ ts.getLast?, token t ≠ []) :
    splitString ([d].intercalate (ts.map fun t => before t ++ token t ++ after t)) d true false
      = ts.map token := by
  have hjoin : Tokens.tokens d ([d].intercalate (ts.map fun t => before t ++ token t ++ after t))
      = ts.map fun t => before t ++ token t ++ after t := by
    refine Tokens.tokens_intercalate d _ ?_ ?_
    · -- The delimiter is not blank, so the padding does not hold it either.
      intro s hs
      rcases List.mem_map.mp hs with ⟨t, ht, rfl⟩
      have hbefore : d ∉ before t := by
        intro h
        exact hd (hb t ht d h)
      have hafter : d ∉ after t := by
        intro h
        exact hd (ha t ht d h)
      simp only [List.mem_append, not_or]
      exact ⟨⟨hbefore, hdt t ht⟩, hafter⟩
    · rw [List.getLast?_map]
      cases hl : ts.getLast? with
      | none => simp only [Option.map_none, ne_eq, reduceCtorEq, not_false_eq_true]
      | some t =>
          have hne := hlast t hl
          simp only [Option.map_some, ne_eq, Option.some.injEq, List.append_eq_nil_iff, hne,
            and_false, false_and, not_false_eq_true]
  rw [splitString_eq, hjoin, List.map_map]
  simp only [if_true, Bool.false_and, Bool.not_false, List.filter_true]
  refine List.map_congr_left ?_
  intro t ht
  exact strTrimCopy_padded _ _ _ (hb t ht) (ha t ht) (htrim t ht)

end Nanoservices
