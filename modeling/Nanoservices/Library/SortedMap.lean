import Mathlib.Data.List.Sort
import Mathlib.Order.Lattice

/-!
# Sorted Maps

A finite map over a linearly ordered key type, kept as the list of its entries
in strictly increasing key order. The order is a field of the structure, so a
map is determined by its entries and two maps that answer every lookup alike
are equal (`ext_find?`). Everything else is derived from that: an insertion is
known by its effect on lookups, and an equation between maps is settled by
comparing lookups.

`insertAll` inserts a list of entries from left to right, so a later entry
overwrites an earlier one under the same key. `ofList` says what that builds
from nothing: keep the last occurrence of each key and sort by key. The two
agree (`insertAll_empty`), which turns a loop of insertions into a closed form.
`emplaceAll` leaves an entry alone that is there already, so the first entry
under a key is the one that stays.

## Main definitions

* `SortedMap`: Entries in strictly increasing key order.
* `insert`: Put a value under a key, overwriting.
* `find?`: The value under a key.
* `insertAll`: Insert a list of entries from left to right.
* `lastOccurrences`: The entries not overwritten by a later one.
* `ofList`: Last occurrences, sorted by key.
* `tryEmplace`, `emplaceAll`: Insert only where nothing is.
* `mapValues`: Change the values and leave the keys.

## Theorems

* `mem_entries_iff`: An entry is listed exactly when its key finds its value.
* `ext_find?`: Lookups determine the map.
* `find?_insert`: Insertion changes one lookup.
* `find?_insertAll`: A run of insertions answers with the last occurrence.
* `insertAll_empty`: Inserting into the empty map is `ofList`.
* `insertAll_entries_empty`: Inserting a map's own entries rebuilds it.
* `emplaceAll_empty`: Emplacing into the empty map, as `ofList`.
* `length_ofList_eq_iff`: No entry is lost exactly if no key comes twice.
* `insertAll_eq_iff`: When inserting over old contents leaves no trace of them.
* `sortLast_map`: Sorting and overwriting commute with a change of values.
-/

universe u v w

/-- A finite map, as its entries in strictly increasing key order. -/
@[ext] structure SortedMap (κ : Type u) (ν : Type v) [LinearOrder κ] where
  entries : List (κ × ν)
  sorted : entries.Pairwise fun a b => a.1 < b.1

namespace SortedMap

variable {κ : Type u} {ν : Type v} {ν' : Type w} [LinearOrder κ]

/-- The map without entries, in which no key finds anything. -/
def empty : SortedMap κ ν := ⟨[], List.Pairwise.nil⟩

/-- The keys, in increasing order. -/
def keys (m : SortedMap κ ν) : List κ := m.entries.map Prod.fst

/-- The value under a key, if there is one. -/
def find? (m : SortedMap κ ν) (k : κ) : Option ν := m.entries.lookup k

/-- Put a value under a key in a sorted list of entries. The list is walked up
    to the place of the key, where an entry with this key is replaced. -/
def insertEntry (k : κ) (v : ν) : List (κ × ν) → List (κ × ν)
  | [] => [(k, v)]
  | e :: l =>
    if k < e.1 then (k, v) :: e :: l
    else if e.1 < k then e :: insertEntry k v l
    else (k, v) :: l

/-- An entry of the new list is the inserted one or an old one. -/
theorem mem_insertEntry (k : κ) (v : ν) (l : List (κ × ν)) (e : κ × ν)
    (h : e ∈ insertEntry k v l) : e = (k, v) ∨ e ∈ l := by
  induction l with
  | nil =>
      simp only [insertEntry, List.mem_singleton] at h
      exact Or.inl h
  | cons e' l ih =>
      -- The new entry goes in front, goes further back, or replaces the first
      -- one.
      simp only [insertEntry] at h
      split_ifs at h with hlt hgt
      · exact List.mem_cons.mp h
      · rcases List.mem_cons.mp h with rfl | hl
        · exact Or.inr List.mem_cons_self
        · exact (ih hl).imp_right (List.mem_cons_of_mem e')
      · exact (List.mem_cons.mp h).imp_right (List.mem_cons_of_mem e')

/-- Inserting keeps the keys in strictly increasing order. -/
theorem insertEntry_sorted (k : κ) (v : ν) (l : List (κ × ν))
    (hl : l.Pairwise fun a b => a.1 < b.1) :
    (insertEntry k v l).Pairwise fun a b => a.1 < b.1 := by
  induction l with
  | nil => exact List.pairwise_singleton _ _
  | cons e l ih =>
      rcases List.pairwise_cons.mp hl with ⟨he, hl'⟩
      simp only [insertEntry]
      split_ifs with hlt hgt
      · -- The new entry goes in front.
        refine List.pairwise_cons.mpr ⟨?_, hl⟩
        intro b hb
        rcases List.mem_cons.mp hb with rfl | hb'
        · exact hlt
        · exact lt_trans hlt (he b hb')
      · -- It goes further back.
        refine List.pairwise_cons.mpr ⟨?_, ih hl'⟩
        intro b hb
        rcases mem_insertEntry k v l b hb with rfl | hb'
        · exact hgt
        · exact he b hb'
      · -- The keys are equal, so the tail stays above the new entry.
        have hke : k = e.1 := le_antisymm (not_lt.mp hgt) (not_lt.mp hlt)
        refine List.pairwise_cons.mpr ⟨?_, hl'⟩
        intro b hb
        rw [hke]
        exact he b hb

/-- Put a value under a key, overwriting the value already there. -/
def insert (m : SortedMap κ ν) (k : κ) (v : ν) : SortedMap κ ν :=
  ⟨insertEntry k v m.entries, insertEntry_sorted k v m.entries m.sorted⟩

/-- Insert a list of entries from left to right, so that a later one overwrites
    an earlier one under the same key. -/
def insertAll (m : SortedMap κ ν) (l : List (κ × ν)) : SortedMap κ ν :=
  l.foldl (fun m e => m.insert e.1 e.2) m

/-- Inserting nothing changes nothing. -/
@[simp] theorem insertAll_nil (m : SortedMap κ ν) : m.insertAll [] = m := rfl

/-- The first entry is inserted first. -/
@[simp] theorem insertAll_cons (m : SortedMap κ ν) (e : κ × ν) (l : List (κ × ν)) :
    m.insertAll (e :: l) = (m.insert e.1 e.2).insertAll l := rfl

/-! ### Lookups -/

/-- An entry under another key is passed over. -/
theorem lookup_cons_of_ne (k : κ) (e : κ × ν) (l : List (κ × ν)) (h : k ≠ e.1) :
    (e :: l).lookup k = l.lookup k := by
  rw [List.lookup_cons, beq_eq_false_iff_ne.mpr h]

/-- Under distinct keys a lookup finds exactly the listed entries. -/
theorem lookup_eq_some_iff_mem (l : List (κ × ν)) (hl : (l.map Prod.fst).Nodup) (k : κ) (v : ν) :
    l.lookup k = some v ↔ (k, v) ∈ l := by
  induction l with
  | nil => simp only [List.lookup_nil, reduceCtorEq, List.not_mem_nil]
  | cons e l ih =>
      rcases e with ⟨k', v'⟩
      rw [List.map_cons, List.nodup_cons] at hl
      rw [List.lookup_cons, List.mem_cons]
      by_cases hk : k = k'
      · subst hk
        simp only [beq_self_eq_true, Option.some.injEq, Prod.mk.injEq, true_and]
        constructor
        · intro h
          exact Or.inl h.symm
        · -- The key is not listed again, so the entry must be the front one.
          rintro (rfl | hmem)
          · rfl
          · exact absurd (List.mem_map_of_mem hmem) hl.1
      · simp only [beq_eq_false_iff_ne.mpr hk, Prod.mk.injEq, hk, false_and, false_or]
        exact ih hl.2

/-- No key is listed twice, since the keys increase strictly. -/
theorem keys_nodup (m : SortedMap κ ν) : (m.entries.map Prod.fst).Nodup := by
  refine List.pairwise_map.mpr (m.sorted.imp ?_)
  intro a b h
  exact ne_of_lt h

/-- An entry is listed exactly when its key finds its value. -/
theorem mem_entries_iff (m : SortedMap κ ν) (k : κ) (v : ν) :
    (k, v) ∈ m.entries ↔ m.find? k = some v :=
  (lookup_eq_some_iff_mem m.entries m.keys_nodup k v).symm

/-- A key is listed exactly when it finds some value. -/
theorem mem_keys_iff (m : SortedMap κ ν) (k : κ) : k ∈ m.keys ↔ ∃ v, m.find? k = some v := by
  simp only [keys, List.mem_map, ← mem_entries_iff, Prod.exists, exists_and_right, exists_eq_right]

/-- Lookups determine the map: the same entries, and one order to list them
    in. -/
theorem ext_find? (m m' : SortedMap κ ν) (h : ∀ k, m.find? k = m'.find? k) : m = m' := by
  have hmem : ∀ e, e ∈ m.entries ↔ e ∈ m'.entries := by
    rintro ⟨k, v⟩
    rw [mem_entries_iff, mem_entries_iff, h]
  have hperm : m.entries.Perm m'.entries :=
    (List.perm_ext_iff_of_nodup m.keys_nodup.of_map m'.keys_nodup.of_map).mpr hmem
  -- Of two entries out of order in one of the lists, neither list can hold both.
  refine SortedMap.ext (hperm.eq_of_pairwise ?_ m.sorted m'.sorted)
  intro a b _ _ hab hba
  exact absurd hba (not_lt_of_gt hab)

/-- There is nothing to be found in the empty map. -/
@[simp] theorem find?_empty (k : κ) : (empty : SortedMap κ ν).find? k = none := rfl

/-- A lookup of the inserted key finds the inserted value, and every other
    lookup finds what it found before. -/
theorem lookup_insertEntry (k : κ) (v : ν) (l : List (κ × ν)) (k' : κ) :
    (insertEntry k v l).lookup k' = if k' = k then some v else l.lookup k' := by
  induction l with
  | nil =>
      by_cases hk : k' = k
      · rw [if_pos hk, hk, insertEntry, List.lookup_cons_self]
      · rw [if_neg hk, insertEntry, lookup_cons_of_ne k' _ _ hk]
  | cons e l ih =>
      unfold insertEntry
      by_cases hk : k' = k
      · -- The inserted key is looked up: it is found where it is put.
        rw [if_pos hk] at ih ⊢
        subst hk
        split_ifs with hlt hgt
        · exact List.lookup_cons_self
        · rw [lookup_cons_of_ne k' e _ (ne_of_gt hgt)]
          exact ih
        · exact List.lookup_cons_self
      · -- Another key is looked up.
        rw [if_neg hk] at ih ⊢
        split_ifs with hlt hgt
        · exact lookup_cons_of_ne k' _ _ hk
        · rw [List.lookup_cons, ih, List.lookup_cons]
        · -- The entry overwritten has the inserted key, not the one looked up.
          have hke : k = e.1 := le_antisymm (not_lt.mp hgt) (not_lt.mp hlt)
          rw [lookup_cons_of_ne k' _ _ hk, lookup_cons_of_ne k' _ _ (hke ▸ hk)]

/-- Insertion changes one lookup, that of the inserted key. -/
theorem find?_insert (m : SortedMap κ ν) (k : κ) (v : ν) (k' : κ) :
    (m.insert k v).find? k' = if k' = k then some v else m.find? k' :=
  lookup_insertEntry k v m.entries k'

/-- After a run of insertions a key finds its last occurrence in the list, and
    otherwise what it found before. -/
theorem find?_insertAll (l : List (κ × ν)) (m : SortedMap κ ν) (k : κ) :
    (m.insertAll l).find? k = (l.reverse.lookup k).or (m.find? k) := by
  induction l generalizing m with
  | nil => simp only [insertAll_nil, List.reverse_nil, List.lookup_nil, Option.none_or]
  | cons e l ih =>
      rw [insertAll_cons, ih, List.reverse_cons, List.lookup_append, Option.or_assoc, find?_insert]
      congr 1
      rw [List.lookup_cons, List.lookup_nil]
      -- The first entry is the last one to be found from behind.
      by_cases hk : k = e.1
      · simp only [hk, beq_self_eq_true, if_true, Option.some_or]
      · simp only [beq_eq_false_iff_ne.mpr hk, if_neg hk, Option.none_or]

/-! ### Building a map from a list -/

/-- The entries whose key does not come again later in the list. -/
def lastOccurrences : List (κ × ν) → List (κ × ν)
  | [] => []
  | e :: l => if e.1 ∈ l.map Prod.fst then lastOccurrences l else e :: lastOccurrences l

/-- Keeping last occurrences drops entries and moves none. -/
theorem lastOccurrences_sublist (l : List (κ × ν)) : (lastOccurrences l).Sublist l := by
  induction l with
  | nil => exact List.Sublist.refl _
  | cons e l ih =>
      unfold lastOccurrences
      split_ifs with he
      · exact ih.cons e
      · exact ih.cons_cons e

/-- Of each key one entry is kept. -/
theorem lastOccurrences_nodup (l : List (κ × ν)) : ((lastOccurrences l).map Prod.fst).Nodup := by
  induction l with
  | nil => exact List.nodup_nil
  | cons e l ih =>
      unfold lastOccurrences
      -- An entry is kept only if its key does not come again.
      split_ifs with he
      · exact ih
      · rw [List.map_cons, List.nodup_cons]
        refine ⟨?_, ih⟩
        intro hmem
        exact he (((lastOccurrences_sublist l).map Prod.fst).subset hmem)

/-- Keeping last occurrences does not change what the last occurrence is. -/
theorem lookup_lastOccurrences (l : List (κ × ν)) (k : κ) :
    (lastOccurrences l).lookup k = l.reverse.lookup k := by
  induction l with
  | nil => rfl
  | cons e l ih =>
      rw [lastOccurrences, List.reverse_cons, List.lookup_append, ← ih]
      by_cases hk : k = e.1
      · subst hk
        rw [List.lookup_cons_self]
        split_ifs with he
        · -- A later occurrence is there to be found, so the front one is not consulted.
          rcases List.mem_map.mp he with ⟨e', he', hk'⟩
          have hsome : (l.reverse.lookup e.1).isSome := by
            rw [List.lookup_isSome_iff]
            exact ⟨e', List.mem_reverse.mpr he', beq_iff_eq.mpr hk'.symm⟩
          rw [ih, Option.or_of_isSome hsome]
        · have hnone : (lastOccurrences l).lookup e.1 = none := by
            rw [List.lookup_eq_none_iff]
            intro e' he'
            refine bne_iff_ne.mpr fun hk => he ?_
            exact hk ▸ List.mem_map_of_mem ((lastOccurrences_sublist l).subset he')
          rw [hnone, List.lookup_cons_self, Option.none_or]
      · rw [lookup_cons_of_ne k e [] hk, List.lookup_nil, Option.or_none]
        split_ifs with he
        · rfl
        · exact lookup_cons_of_ne k e _ hk

/-- The last occurrence of each key, sorted by key. This is what a map that was
    filled from the list has as its entries. -/
def sortLast (l : List (κ × ν)) : List (κ × ν) :=
  (lastOccurrences l).insertionSort fun a b => a.1 ≤ b.1

/-- Sorting moves entries, and drops none. -/
theorem sortLast_perm (l : List (κ × ν)) : (sortLast l).Perm (lastOccurrences l) :=
  List.perm_insertionSort _ _

/-- So each key is there once. -/
theorem sortLast_nodup (l : List (κ × ν)) : ((sortLast l).map Prod.fst).Nodup :=
  ((sortLast_perm l).map Prod.fst).nodup_iff.mpr (lastOccurrences_nodup l)

/-- The keys increase strictly. -/
theorem sortLast_sorted (l : List (κ × ν)) : (sortLast l).Pairwise fun a b => a.1 < b.1 := by
  have : Std.Total fun a b : κ × ν => a.1 ≤ b.1 := ⟨fun a b => le_total a.1 b.1⟩
  have : IsTrans (κ × ν) fun a b => a.1 ≤ b.1 := ⟨fun _ _ _ => le_trans⟩
  have hle := List.pairwise_insertionSort (fun a b : κ × ν => a.1 ≤ b.1) (lastOccurrences l)
  -- Sorted weakly and without repeated keys is sorted strictly.
  exact (hle.and (List.pairwise_map.mp (sortLast_nodup l))).imp fun h => lt_of_le_of_ne h.1 h.2

/-- The map a list of entries stands for: a later entry beats an earlier one
    under the same key. -/
def ofList (l : List (κ × ν)) : SortedMap κ ν := ⟨sortLast l, sortLast_sorted l⟩

/-- A key finds its last occurrence in the list, which is the first one from
    behind. -/
theorem find?_ofList (l : List (κ × ν)) (k : κ) : (ofList l).find? k = l.reverse.lookup k := by
  rw [← lookup_lastOccurrences]
  ext v
  -- Sorting is a permutation, and under distinct keys the order does not matter.
  rw [← mem_entries_iff, lookup_eq_some_iff_mem _ (lastOccurrences_nodup l)]
  exact (sortLast_perm l).mem_iff

/-- A loop of insertions into an empty map builds `ofList`, whatever the order
    and the repetitions of the list. -/
theorem insertAll_empty (l : List (κ × ν)) : empty.insertAll l = ofList l := by
  refine ext_find? _ _ ?_
  intro k
  rw [find?_insertAll, find?_ofList, find?_empty, Option.or_none]

/-- Reversing a list with distinct keys does not change its lookups. -/
theorem lookup_reverse (l : List (κ × ν)) (hl : (l.map Prod.fst).Nodup) (k : κ) :
    l.reverse.lookup k = l.lookup k := by
  ext v
  -- A lookup in a list with distinct keys is membership, which has no order.
  have hr : (l.reverse.map Prod.fst).Nodup := by
    rw [List.map_reverse]
    exact List.nodup_reverse.mpr hl
  rw [lookup_eq_some_iff_mem _ hr, lookup_eq_some_iff_mem _ hl, List.mem_reverse]

/-- Inserting the entries of a map into an empty one rebuilds it. -/
theorem insertAll_entries_empty (m : SortedMap κ ν) : empty.insertAll m.entries = m := by
  refine ext_find? _ _ ?_
  intro k
  rw [find?_insertAll, lookup_reverse _ m.keys_nodup, find?_empty, Option.or_none]
  rfl

/-- So does inserting entries that are in order already. -/
theorem insertAll_sorted_empty (l : List (κ × ν)) (h : l.Pairwise fun a b => a.1 < b.1) :
    (empty.insertAll l).entries = l :=
  congrArg SortedMap.entries (insertAll_entries_empty ⟨l, h⟩)

/-- Inserting the entries of `n` over the contents of `m` gives `p`, whose keys
    are those of `n`, exactly when `n` is `p` and `m` holds no further key. -/
theorem insertAll_eq_iff (m n p : SortedMap κ ν) (hk : n.keys = p.keys) :
    m.insertAll n.entries = p ↔ (∀ k ∈ m.keys, k ∈ p.keys) ∧ n = p := by
  have hfind : ∀ k, (m.insertAll n.entries).find? k = (n.find? k).or (m.find? k) := by
    intro k
    rw [find?_insertAll, lookup_reverse _ n.keys_nodup]
    rfl
  constructor
  · intro h
    constructor
    · intro k hkm
      rcases (mem_keys_iff m k).mp hkm with ⟨v, hv⟩
      rw [mem_keys_iff, ← h, hfind, hv]
      cases n.find? k with
      | none => exact ⟨v, rfl⟩
      | some v' => exact ⟨v', rfl⟩
    · refine ext_find? _ _ ?_
      intro k
      have hkey := congrArg (fun q => SortedMap.find? q k) h
      simp only [hfind] at hkey
      rw [← hkey]
      cases hn : n.find? k with
      | some v => rfl
      | none =>
          -- The key is not among those of `p` either, so `m` cannot supply it.
          have hnot : ¬ ∃ v, p.find? k = some v := by
            rw [← mem_keys_iff, ← hk, mem_keys_iff, hn]
            simp only [reduceCtorEq, exists_false, not_false_eq_true]
          cases hm : m.find? k with
          | none => rfl
          | some v =>
              rw [hn, hm, Option.none_or] at hkey
              exact absurd ⟨v, hkey.symm⟩ hnot
  · rintro ⟨hsub, rfl⟩
    refine ext_find? _ _ ?_
    intro k
    rw [hfind]
    cases hn : n.find? k with
    | some v => rfl
    | none =>
        cases hm : m.find? k with
        | none => rfl
        | some v =>
            -- The old key is among the new ones, where a lookup finds it.
            have hmem : k ∈ m.keys := (mem_keys_iff m k).mpr ⟨v, hm⟩
            rcases (mem_keys_iff n k).mp (hsub k hmem) with ⟨v', hv'⟩
            rw [hn] at hv'
            exact absurd hv' (by simp only [reduceCtorEq, not_false_eq_true])

/-! ### Keeping what is there -/

/-- Put a value under a key, unless there is one already: then the map is left
    as it is. -/
def tryEmplace (m : SortedMap κ ν) (k : κ) (v : ν) : SortedMap κ ν :=
  if (m.find? k).isSome then m else m.insert k v

/-- Emplace a list of entries from left to right, so that the first one under a
    key stays. -/
def emplaceAll (m : SortedMap κ ν) (l : List (κ × ν)) : SortedMap κ ν :=
  l.foldl (fun m e => m.tryEmplace e.1 e.2) m

/-- A lookup finds what was there before, and only where there was nothing the
    value that is put there. -/
theorem find?_tryEmplace (m : SortedMap κ ν) (k : κ) (v : ν) (k' : κ) :
    (m.tryEmplace k v).find? k' = (m.find? k').or (if k' = k then some v else none) := by
  unfold tryEmplace
  by_cases hsome : (m.find? k).isSome
  · -- Something is there, and it stays.
    rw [if_pos hsome]
    by_cases hk : k' = k
    · rw [hk, Option.or_of_isSome hsome]
    · rw [if_neg hk, Option.or_none]
  · -- Nothing is there, so the value is inserted.
    rw [if_neg hsome, find?_insert]
    by_cases hk : k' = k
    · rw [hk, if_pos rfl, if_pos rfl, Option.not_isSome_iff_eq_none.mp hsome, Option.none_or]
    · rw [if_neg hk, if_neg hk, Option.or_none]

/-- After a run of emplacements a key finds what it found before, and otherwise
    its first occurrence in the list. -/
theorem find?_emplaceAll (l : List (κ × ν)) (m : SortedMap κ ν) (k : κ) :
    (m.emplaceAll l).find? k = (m.find? k).or (l.lookup k) := by
  induction l generalizing m with
  | nil => simp only [emplaceAll, List.foldl_nil, List.lookup_nil, Option.or_none]
  | cons e l ih =>
      have hrest : (m.emplaceAll (e :: l)).find? k =
          ((m.tryEmplace e.1 e.2).emplaceAll l).find? k :=
        rfl
      rw [hrest, ih, find?_tryEmplace, Option.or_assoc]
      -- What is found of the rest is found only if the first entry has another
      -- key.
      congr 1
      by_cases hk : k = e.1
      · rw [if_pos hk, hk, List.lookup_cons_self, Option.some_or]
      · rw [if_neg hk, Option.none_or, lookup_cons_of_ne k e l hk]

/-- Emplacing into the empty map keeps first occurrences, which are the last
    ones of the reversed list. -/
theorem emplaceAll_empty (l : List (κ × ν)) : empty.emplaceAll l = ofList l.reverse := by
  refine ext_find? _ _ ?_
  intro k
  rw [find?_emplaceAll, find?_ofList, find?_empty, Option.none_or, List.reverse_reverse]

/-- Where no key comes twice every occurrence is a last one. -/
theorem lastOccurrences_of_nodup (l : List (κ × ν)) (h : (l.map Prod.fst).Nodup) :
    lastOccurrences l = l := by
  induction l with
  | nil => rfl
  | cons e l ih =>
      rw [List.map_cons, List.nodup_cons] at h
      rw [lastOccurrences, if_neg h.1, ih h.2]

/-- A list with distinct keys is rearranged, and nothing in it is lost. -/
theorem ofList_perm (l : List (κ × ν)) (h : (l.map Prod.fst).Nodup) :
    (ofList l).entries.Perm l := by
  have hperm := sortLast_perm l
  rw [lastOccurrences_of_nodup l h] at hperm
  exact hperm

/-- A map has no more entries than the list it is filled from. -/
theorem length_ofList_le (l : List (κ × ν)) : (ofList l).entries.length ≤ l.length :=
  (sortLast_perm l).length_eq.trans_le (lastOccurrences_sublist l).length_le

/-- As many entries as in the list are left exactly if no key comes twice. -/
theorem length_ofList_eq_iff (l : List (κ × ν)) :
    (ofList l).entries.length = l.length ↔ (l.map Prod.fst).Nodup := by
  constructor
  · intro h
    -- The last occurrences are then all the entries of the list.
    have hlength : (lastOccurrences l).length = l.length :=
      (sortLast_perm l).length_eq.symm.trans h
    have hall := (lastOccurrences_sublist l).eq_of_length hlength
    rw [← hall]
    exact lastOccurrences_nodup l
  · intro h
    exact (ofList_perm l h).length_eq

/-! ### Changing the values -/

/-- Change the value of each entry, leaving the keys and so the order. -/
def mapValues (f : κ → ν → ν') (m : SortedMap κ ν) : SortedMap κ ν' :=
  ⟨m.entries.map fun e => (e.1, f e.1 e.2), List.pairwise_map.mpr m.sorted⟩

/-- The keys stay what they were. -/
theorem keys_mapValues (f : κ → ν → ν') (m : SortedMap κ ν) : (m.mapValues f).keys = m.keys := by
  simp only [keys, mapValues, List.map_map, Function.comp_def]

/-- A map is left as it is exactly if the value of each entry is. -/
theorem mapValues_eq_self_iff (f : κ → ν → ν) (m : SortedMap κ ν) :
    m.mapValues f = m ↔ ∀ e ∈ m.entries, f e.1 e.2 = e.2 := by
  rw [SortedMap.ext_iff, mapValues]
  constructor
  · intro h e he
    -- The lists of entries agree, so they agree entry by entry.
    have hid : m.entries.map (fun e => (e.1, f e.1 e.2)) = m.entries.map id := by
      rw [List.map_id]
      exact h
    exact congrArg Prod.snd (List.map_inj_left.mp hid e he)
  · intro h
    have hid : ∀ e ∈ m.entries, (e.1, f e.1 e.2) = id e := by
      intro e he
      exact Prod.ext rfl (h e he)
    exact (List.map_congr_left hid).trans (List.map_id m.entries)

/-- Which entries are last occurrences depends on the keys alone. -/
theorem lastOccurrences_map (f : κ × ν → ν') (l : List (κ × ν)) :
    lastOccurrences (l.map fun e => (e.1, f e)) = (lastOccurrences l).map fun e => (e.1, f e) := by
  induction l with
  | nil => rfl
  | cons e l ih =>
      -- The keys of the two lists are the same.
      rw [List.map_cons, lastOccurrences, lastOccurrences, ih, List.map_map]
      simp only [Function.comp_def]
      split_ifs with he
      · rfl
      · rfl

/-- Sorting and overwriting look at keys only, so they commute with any change
    of the values. -/
theorem sortLast_map (f : κ × ν → ν') (l : List (κ × ν)) :
    sortLast (l.map fun e => (e.1, f e)) = (sortLast l).map fun e => (e.1, f e) := by
  rw [sortLast, sortLast, lastOccurrences_map]
  exact (List.map_insertionSort (fun a b : κ × ν => a.1 ≤ b.1) (fun a b : κ × ν' => a.1 ≤ b.1)
    (fun e => (e.1, f e)) (lastOccurrences l) fun _ _ _ _ => Iff.rfl).symm

/-- A list already in strictly increasing key order is left alone. -/
theorem sortLast_of_sorted (l : List (κ × ν)) (h : l.Pairwise fun a b => a.1 < b.1) :
    sortLast l = l := by
  have hrebuild := insertAll_sorted_empty l h
  rw [insertAll_empty] at hrebuild
  exact hrebuild

end SortedMap
