import Nanoservices.Library.Interleave
import Nanoservices.Serialization.Decoder

/-!
# How Decoding Ends

How a call of the decoder ends, read off the tree that it is given. `firstFault`
goes through the tree as the decoder does, with the type in hand, but it decodes
nothing: it has no target, and no values. What it finds is the fault of every
call, in any target (`deserializeField_ends`), and it finds nothing exactly if
the calls return. No value that has been read decides what is read next. A read
under another type is the end of a call here; what a program does after one that
C++ gives a meaning is left open.

The exception of a truncated map carries a field name, which the map decoder
takes from the record it is at. Truncated maps can be anywhere in a tree, in the
keys and values of other maps too, and more than one can be. The name is that of
the first which the decoder comes to the end of.

## Main definitions

* `Decoded.fault`: How a call has ended.
* `firstFault`, `firstFaultFields`, `firstFaultPairs`: The first fault in a tree.

## Theorems

* `fault_deserializeListLoop`, `fault_deserializeMapLoop`: The loops.
* `fault_deserializeField`: The fault of a call is the first in the tree.
* `somewhere_of_firstFault`: What the exception names is in the tree.
* `deserializeField_ends`: How a call ends.
-/

namespace Nanoservices

open Interleave

/-- The fault that has ended a call, if it has not returned. -/
def Decoded.fault {α : Type} : Decoded α → Option Fault
  | .ok _ => none
  | .error (f, _) => some f

/-- The first fault of the keys and values, in the order in which they stand, or
    else that of the map itself, if there is a key left over. -/
def firstFaultPairs (fieldName : Str) (key value : Record → Option Fault) :
    List Record → Option Fault
  | [] => none
  | [kr] => (key kr).or (some (.nsException (endOfVectorMessage fieldName)))
  | kr :: vr :: rs => (key kr).or ((value vr).or (firstFaultPairs fieldName key value rs))

/-- The first fault of a record that is read as a vector of records: that of the
    read, or one that `find` comes to in them. -/
def faultInRecords (find : List Record → Option Fault) (r : Record) : Option Fault :=
  match r.data.readRecords with
  | .error e => some (.undefined e)
  | .ok rs => find rs

/-- Where there is a vector of records the read is no fault. -/
theorem faultInRecords_records (find : List Record → Option Fault) (t : RecordType) (n : Str)
    (rs : List Record) : faultInRecords find ⟨t, n, .records rs⟩ = find rs := rfl

mutual
/-- The first fault that decoding a tree as a value of the type comes to. It is
    found in the tree and the type alone. -/
def firstFault : {α : Type} → Ty α → Record → Option Fault
  | _, .scalar s, r => match r.data.readScalar s with
    | .error e => some (.undefined e)
    | .ok _ => none
  | _, .char, _ => none
  | _, .vector T, r => faultInRecords (fun rs => rs.findSome? (firstFault T)) r
  | _, @Ty.map _ _ _ K V, r =>
    faultInRecords (firstFaultPairs r.fieldName (firstFault K) (firstFault V)) r
  | _, .cls F _, r => faultInRecords (firstFaultFields F) r
/-- The same for the members of a class, of which there may be too few. -/
def firstFaultFields : {σ : Type} → Fields σ → List Record → Option Fault
  | _, .nil, _ => none
  | _, .cons _ _ _, [] => some (.undefined .pastTheEnd)
  -- Nothing is found in the record of a member that is not decoded.
  | _, .cons arg T F, r :: rs =>
    (if arg.shadowed deserializeLocals then none else firstFault T r).or (firstFaultFields F rs)
end

/-! ### The loops -/

/-- What is found in a list is found in its first element, or else in the
    others. -/
theorem findSome?_cons_or {α β : Type} (f : α → Option β) (a : α) (l : List α) :
    (a :: l).findSome? f = (f a).or (l.findSome? f) := by
  rw [List.findSome?_cons]
  cases f a with
  | none => rfl
  | some b => rfl

/-- The list loop ends with the first fault of its items. -/
theorem fault_deserializeListLoop {α : Type} (t : α) (item : α → Record → Decoded α)
    (rs : List Record) (target : List α) :
    (deserializeListLoop t item target rs).fault = rs.findSome? fun r => (item t r).fault := by
  induction rs generalizing target with
  | nil => rfl
  | cons r rs ih =>
      rw [findSome?_cons_or, deserializeListLoop]
      -- The first item has a fault, or it is pushed and the others have to be
      -- looked at.
      cases item t r with
      | error e => rfl
      | ok x => exact ih (target ++ [x])

/-- The map loop ends with the first fault of its keys and values, or with the
    exception for a key that is left over. -/
theorem fault_deserializeMapLoop {κ ν : Type} [LinearOrder κ] (n : Str) (k₀ : κ) (v₀ : ν)
    (keyItem : κ → Record → Decoded κ) (valueItem : ν → Record → Decoded ν) (rs : List Record)
    (target : SortedMap κ ν) :
    (deserializeMapLoop n k₀ v₀ keyItem valueItem target rs).fault =
      firstFaultPairs n (fun r => (keyItem k₀ r).fault) (fun r => (valueItem v₀ r).fault) rs := by
  induction rs using pairInduction generalizing target with
  | nil => rfl
  | single kr =>
      rw [firstFaultPairs, deserializeMapLoop]
      cases keyItem k₀ kr with
      | error e => rfl
      -- Nothing is wrong with the key, so it is the map's turn.
      | ok k => rfl
  | pair kr vr rs ih =>
      rw [firstFaultPairs, deserializeMapLoop]
      cases keyItem k₀ kr with
      | error e => rfl
      | ok k =>
          -- The key is fine, so the value is decoded next.
          cases valueItem v₀ vr with
          | error e => rfl
          | ok v => exact ih (target.insert k v)

/-! ### The decoder -/

/-- A decoder that begins with a record vector ends with the fault of this read
    or with that of the rest. -/
theorem fault_readRecords {α : Type} (r : Record) (target : α) (k : List Record → Decoded α)
    (find : List Record → Option Fault) (hk : ∀ rs, (k rs).fault = find rs) :
    Decoded.fault (match r.data.readRecords with
      | .error e => undefinedAt e target
      | .ok rs => k rs) = faultInRecords find r := by
  unfold faultInRecords
  cases r.data.readRecords with
  | error e => rfl
  | ok rs => exact hk rs

/-- A clause ends as its member does, unless the member is hidden. -/
theorem fault_deserializeFieldclause {α : Type} (arg : MacroArg) (target : α) (d : Decoded α) :
    (deserializeFieldclause arg target d).fault =
      if arg.shadowed deserializeLocals then none else d.fault := by
  unfold deserializeFieldclause
  split
  · rfl
  · rfl

mutual
/-- The fault of a call is the first in the tree. It does not depend on what the
    target holds, nor on what uninitialized objects do. -/
theorem fault_deserializeField (u : Uninit) : ∀ {α : Type} (T : Ty α) (w : α) (r : Record),
    (deserializeField u T w r).fault = firstFault T r
  | _, .scalar s, w, r => by
      rw [deserializeField, firstFault]
      cases r.data.readScalar s with
      | error e => rfl
      | ok x => rfl
  | _, .char, w, r => by
      rw [deserializeField, firstFault]
      rfl
  | _, .vector T, w, r => by
      rw [deserializeField, deserializeListField, firstFault]
      refine fault_readRecords r w _ _ ?_
      intro rs
      simp only [fault_deserializeListLoop, fault_deserializeField u T]
  | _, @Ty.map _ _ _ K V, w, r => by
      rw [deserializeField, deserializeMapField, firstFault]
      refine fault_readRecords r w _ _ ?_
      intro rs
      simp only [fault_deserializeMapLoop, fault_deserializeField u K, fault_deserializeField u V]
  | _, .cls F _, w, r => by
      rw [deserializeField, firstFault]
      refine fault_readRecords r w _ _ ?_
      intro rs
      exact fault_deserializeClauses u F w rs
/-- The same for the members of a class. -/
theorem fault_deserializeClauses (u : Uninit) : ∀ {σ : Type} (F : Fields σ) (w : σ)
    (rs : List Record), (deserializeClauses u F w rs).fault = firstFaultFields F rs
  | _, .nil, _, _ => rfl
  | _, .cons _ _ _, _, [] => rfl
  | _, .cons arg T F, w, r :: rs => by
      rw [deserializeClauses, firstFaultFields, ← fault_deserializeField u T w.1 r,
        ← fault_deserializeFieldclause arg w.1, ← fault_deserializeClauses u F w.2 rs]
      cases deserializeFieldclause arg w.1 (deserializeField u T w.1 r) with
      | error e => rfl
      | ok x =>
          -- The member is written, and what is left is up to the others.
          cases deserializeClauses u F w.2 rs with
          | error e => rfl
          | ok xs => rfl
end

/-! ### The exception -/

/-- The message names a node by its field name, and this node ends after a key. -/
def Record.Names (message : Str) (r : Record) : Prop :=
  message = endOfVectorMessage r.fieldName ∧ ∃ rs, r.data = .records rs ∧ ¬ Even rs.length

/-- An exception in a record that is read as a vector of records is in its
    children, or it is its own. -/
theorem somewhere_of_faultInRecords {P : Record → Prop} (find : List Record → Option Fault)
    (r : Record) (message : Str) (h : faultInRecords find r = some (.nsException message))
    (hfind : ∀ rs, r.data = .records rs → find rs = some (.nsException message) →
      P r ∨ ∃ c ∈ rs, c.Somewhere P) : r.Somewhere P := by
  unfold faultInRecords at h
  -- A read is never the exception, so the vector is there.
  cases hread : r.data.readRecords with
  | error e => simp only [hread, Option.some.injEq, reduceCtorEq] at h
  | ok rs =>
      rw [hread] at h
      have hr := (readRecords_eq_ok_iff r.data rs).mp hread
      exact (Record.somewhere_iff P r rs hr).mpr (hfind rs hr h)

/-- A fault of a map is that of a child, read as a key or as a value, or the
    exception of a map with an odd number of children. -/
theorem firstFaultPairs_eq_some (n : Str) (key value : Record → Option Fault) (f : Fault)
    (rs : List Record) (h : firstFaultPairs n key value rs = some f) :
    (∃ c ∈ rs, key c = some f ∨ value c = some f) ∨
      (f = .nsException (endOfVectorMessage n) ∧ ¬ Even rs.length) := by
  induction rs using pairInduction with
  | nil => simp only [firstFaultPairs, reduceCtorEq] at h
  | single kr =>
      rw [firstFaultPairs, Option.or_eq_some_iff] at h
      rcases h with hk | ⟨_, hf⟩
      · exact Or.inl ⟨kr, List.mem_cons_self, Or.inl hk⟩
      · exact Or.inr ⟨(Option.some.inj hf).symm, Nat.not_even_one⟩
  | pair kr vr rs ih =>
      rw [firstFaultPairs, Option.or_eq_some_iff, Option.or_eq_some_iff] at h
      -- It is the fault of the key, of the value, or of one of the later pairs.
      rcases h with hk | ⟨_, hv | ⟨_, hrest⟩⟩
      · exact Or.inl ⟨kr, List.mem_cons_self, Or.inl hk⟩
      · exact Or.inl ⟨vr, List.mem_cons_of_mem _ List.mem_cons_self, Or.inr hv⟩
      · rcases ih hrest with ⟨c, hc, hcf⟩ | ⟨hf, hodd⟩
        · exact Or.inl ⟨c, List.mem_cons_of_mem _ (List.mem_cons_of_mem _ hc), hcf⟩
        · refine Or.inr ⟨hf, ?_⟩
          -- Taking a pair away keeps the parity.
          rw [List.length_cons, List.length_cons, Nat.even_add_one, Nat.even_add_one, not_not]
          exact hodd

mutual
/-- The node that an exception names is in the tree, and it does end after a
    key. -/
theorem somewhere_of_firstFault : ∀ {α : Type} (T : Ty α) (r : Record) (message : Str),
    firstFault T r = some (.nsException message) → r.Somewhere (Record.Names message)
  | _, .scalar s, r, message, h => by
      unfold firstFault at h
      cases hread : r.data.readScalar s with
      | error e => simp only [hread, Option.some.injEq, reduceCtorEq] at h
      | ok x => simp only [hread, reduceCtorEq] at h
  | _, .char, _, _, h => by simp only [firstFault, reduceCtorEq] at h
  | _, .vector T, r, message, h => by
      rw [firstFault] at h
      refine somewhere_of_faultInRecords _ r message h ?_
      intro rs _ hfind
      rcases List.exists_of_findSome?_eq_some hfind with ⟨c, hc, hcf⟩
      exact Or.inr ⟨c, hc, somewhere_of_firstFault T c message hcf⟩
  | _, @Ty.map _ _ _ K V, r, message, h => by
      rw [firstFault] at h
      refine somewhere_of_faultInRecords _ r message h ?_
      intro rs hr hfind
      rcases firstFaultPairs_eq_some _ _ _ _ rs hfind with ⟨c, hc, hcf | hcf⟩ | ⟨hf, hodd⟩
      · exact Or.inr ⟨c, hc, somewhere_of_firstFault K c message hcf⟩
      · exact Or.inr ⟨c, hc, somewhere_of_firstFault V c message hcf⟩
      · exact Or.inl ⟨Fault.nsException.inj hf, rs, hr, hodd⟩
  | _, .cls F _, r, message, h => by
      rw [firstFault] at h
      refine somewhere_of_faultInRecords _ r message h ?_
      intro rs _ hfind
      exact Or.inr (somewhere_of_firstFaultFields F rs message hfind)
/-- The same for the members of a class. -/
theorem somewhere_of_firstFaultFields : ∀ {σ : Type} (F : Fields σ) (rs : List Record)
    (message : Str), firstFaultFields F rs = some (.nsException message) →
      ∃ c ∈ rs, c.Somewhere (Record.Names message)
  | _, .nil, _, _, h => by simp only [firstFaultFields, reduceCtorEq] at h
  | _, .cons _ _ _, [], _, h => by
      simp only [firstFaultFields, Option.some.injEq, reduceCtorEq] at h
  | _, .cons _ T F, r :: rs, message, h => by
      rw [firstFaultFields, Option.or_eq_some_iff] at h
      -- A hidden member has no fault, so it is in a member that is decoded.
      rcases h with hr | ⟨_, hrs⟩
      · split at hr
        · simp only [reduceCtorEq] at hr
        · exact ⟨r, List.mem_cons_self, somewhere_of_firstFault T r message hr⟩
      · rcases somewhere_of_firstFaultFields F rs message hrs with ⟨c, hc, hsome⟩
        exact ⟨c, List.mem_cons_of_mem r hc, hsome⟩
end

/-- How a call ends can be read off the tree: it returns if there is no fault in
    it, and otherwise ends with the first. If that is an exception, it names a
    node of the tree that ends after a key. -/
theorem deserializeField_ends (u : Uninit) {α : Type} (T : Ty α) (w : α) (r : Record) :
    ((∃ v, deserializeField u T w r = .ok v) ↔ firstFault T r = none) ∧
      (∀ f, (∃ w', deserializeField u T w r = .error (f, w')) ↔ firstFault T r = some f) ∧
      ∀ message, firstFault T r = some (.nsException message) →
        r.Somewhere (Record.Names message) := by
  rw [← fault_deserializeField u T w r]
  refine ⟨?_, ?_, ?_⟩
  · cases deserializeField u T w r with
    | ok v => exact iff_of_true ⟨v, rfl⟩ rfl
    | error e => simp only [Decoded.fault, reduceCtorEq, exists_false]
  · -- The fault and the target are known together, or neither.
    intro f
    cases deserializeField u T w r with
    | ok v => simp only [Decoded.fault, reduceCtorEq, exists_false]
    | error e =>
        rw [Decoded.fault, Option.some.injEq]
        constructor
        · rintro ⟨w', h⟩
          exact congrArg Prod.fst (Except.error.inj h)
        · rintro rfl
          exact ⟨e.2, rfl⟩
  · intro message h
    rw [fault_deserializeField u T w r] at h
    exact somewhere_of_firstFault T r message h

-- Of two truncated maps in a vector the first is named.
example : firstFault (.vector mapFieldTy) ⟨.list, [], .records
    [⟨.map, str "a", .records [⟨.signedInt32, [], .scalar .int32 5⟩]⟩,
      ⟨.map, str "b", .records [⟨.signedInt32, [], .scalar .int32 6⟩]⟩]⟩ =
    some (.nsException (endOfVectorMessage (str "a"))) := rfl

end Nanoservices
