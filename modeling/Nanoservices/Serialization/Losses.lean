import Nanoservices.Serialization.Diagnosis
import Nanoservices.Serialization.Overlay

/-!
# Lost Records

What becomes of a record tree that has come from the encoder and has lost
records on the way: the last ones of some node, however deep in the tree the
node is. The format has no lengths in it, so only the decoder can notice, and
what it does depends on the node.

A vector is shorter than it was, and nobody can tell. A map that has lost an odd
number of records ends after a key, and the exception names it; one that has
lost an even number is a smaller map. A class that has lost any of its records
is fatal: the member function that decodes it goes on past the end of the vector
(`deserialize_lossy`). All this is of types without hidden members; what is below
a hidden member is not missed, and one that the encoder did not see is a fault
without any loss.

## Main definitions

* `Loses`: A tree, and the tree with the last records of a node lost.
* `lossFault`: What the decoder does about it.

## Theorems

* `Loses.cases`: The node is the root, or below it.
* `firstFault_encode`: There is no fault in a whole tree.
* `findSome?_replace`, `firstFaultPairs_replace`: One item of a vector or a map
  that is not as it was.
* `firstFault_loses`: The fault is that of the loss.
* `deserialize_lossy`: So decoding ends with it.
-/

namespace Nanoservices

open Interleave

/-- A tree, and the tree without the last records of one of its nodes. -/
inductive Loses (lost : List Record) (node : Record) : Record → Record → Prop
  | here (t : RecordType) (n : Str) (kept : List Record)
      (hnode : node = ⟨t, n, .records (kept ++ lost)⟩) :
      Loses lost node ⟨t, n, .records (kept ++ lost)⟩ ⟨t, n, .records kept⟩
  | deeper (t : RecordType) (n : Str) (before after : List Record) (c c' : Record)
      (h : Loses lost node c c') :
      Loses lost node ⟨t, n, .records (before ++ c :: after)⟩
        ⟨t, n, .records (before ++ c' :: after)⟩

/-- What the decoder does when it comes to a node that has lost some of its
    records, at least one. -/
def lossFault (node : Record) (lost : List Record) : Option Fault :=
  match node.type with
  | .map =>
    if Even lost.length then none else some (.nsException (endOfVectorMessage node.fieldName))
  | .serializableClass => some (.undefined .pastTheEnd)
  | _ => none

/-- The records that are lost are the node's own, or those of one below. -/
theorem Loses.cases {lost : List Record} {node r' : Record} {t : RecordType} {n : Str}
    {d : Data Record} (h : Loses lost node ⟨t, n, d⟩ r') :
    ∃ rs, d = .records rs ∧
      ((∃ kept, rs = kept ++ lost ∧ node = ⟨t, n, d⟩ ∧ r' = ⟨t, n, .records kept⟩) ∨
        ∃ before c c' after, rs = before ++ c :: after ∧ Loses lost node c c' ∧
          r' = ⟨t, n, .records (before ++ c' :: after)⟩) := by
  cases h with
  | here _ _ kept hnode => exact ⟨_, rfl, Or.inl ⟨kept, rfl, hnode, rfl⟩⟩
  | deeper _ _ before after c c' h => exact ⟨_, rfl, Or.inr ⟨before, c, c', after, rfl, h, rfl⟩⟩

/-- Decoding what has been encoded returns, so there is no fault in it. -/
theorem firstFault_encode {α : Type} (T : Ty α) (hU : T.Unshadowed generatedLocals) (n : Str)
    (v : α) : firstFault T (encode T n v) = none := by
  have harrives := arrives_of_unshadowed T ((unshadowed_generatedLocals T).mp hU).1 v
  rw [← fault_deserializeField .zeroed T v, deserializeField_encode .zeroed T n v v harrives]
  rfl

/-- Members that are not hidden are looked for in their own records. -/
theorem firstFaultFields_cons {α σ : Type} (arg : MacroArg) (T : Ty α) (F : Fields σ)
    (hd : arg.shadowed generatedLocals = false) (c : Record) (cs : List Record) :
    firstFaultFields (.cons arg T F) (c :: cs) = (firstFault T c).or (firstFaultFields F cs) := by
  rw [firstFaultFields, ((shadowed_generatedLocals arg).mp hd).2, if_neg Bool.false_ne_true]

/-- The records of the members are those of the first, under its own name, and
    those of the others. -/
theorem encodeFields_cons {α σ : Type} (arg : MacroArg) (T : Ty α) (F : Fields σ)
    (hs : arg.shadowed generatedLocals = false) (v : α × σ) :
    encodeFields (.cons arg T F) v = encode T arg.name.chars v.1 :: encodeFields F v.2 := by
  rw [encodeFields, memberRecord_eq arg ((shadowed_generatedLocals arg).mp hs).1]

/-- The same for the members of a class. -/
theorem firstFaultFields_encode : ∀ {σ : Type} (F : Fields σ), F.Unshadowed generatedLocals →
    ∀ v : σ, firstFaultFields F (encodeFields F v) = none
  | _, .nil, _, _ => rfl
  | _, .cons arg T F, hU, v => by
      rw [encodeFields_cons arg T F hU.1, firstFaultFields_cons arg T F hU.1,
        firstFault_encode T hU.2.1, firstFaultFields_encode F hU.2.2]
      rfl

/-! ### The loops -/

/-- With one item that is not as it was, and nothing wrong in the others, it is
    up to that one. -/
theorem findSome?_replace {α β : Type} (f : α → Option β) (before after : List α) (c c' : α)
    (h : ∀ a ∈ before ++ c :: after, f a = none) :
    (before ++ c' :: after).findSome? f = f c' := by
  rw [List.forall_mem_append, List.forall_mem_cons] at h
  rw [List.findSome?_append, findSome?_cons_or, List.findSome?_eq_none_iff.mpr h.1,
    List.findSome?_eq_none_iff.mpr h.2.2, Option.none_or, Option.or_none]

/-- With nothing wrong in the keys and values, it is up to their number. -/
theorem firstFaultPairs_of_alternate (n : Str) (key value : Record → Option Fault)
    (rs : List Record) (h : Alternate (key · = none) (value · = none) rs) :
    firstFaultPairs n key value rs =
      if Even rs.length then none else some (.nsException (endOfVectorMessage n)) := by
  induction rs using pairInduction with
  | nil => rfl
  | single kr =>
      rw [firstFaultPairs, show key kr = none from h, Option.none_or]
      rfl
  | pair kr vr rs ih =>
      rw [firstFaultPairs, h.1, h.2.1, Option.none_or, Option.none_or, ih h.2.2]
      simp only [List.length_cons, Nat.even_add_one, not_not]

/-- So it is with a key or value. -/
theorem firstFaultPairs_replace (n : Str) (key value : Record → Option Fault)
    (P Q : Record → Prop) (hP : ∀ r, P r → key r = none) (hQ : ∀ r, Q r → value r = none)
    (c c' : Record) (after : List Record) (found : Option Fault) (hkey : P c → key c' = found)
    (hvalue : Q c → value c' = found) (before : List Record)
    (h : Alternate P Q (before ++ c :: after)) (heven : Even (before ++ c :: after).length) :
    firstFaultPairs n key value (before ++ c' :: after) = found := by
  have hrest : ∀ rs, Alternate P Q rs → Even rs.length → firstFaultPairs n key value rs = none := by
    intro rs hrs heven
    have hfine := hrs.imp _ _ _ _ rs (fun r _ => hP r) (fun r _ => hQ r)
    rw [firstFaultPairs_of_alternate n key value rs hfine, if_pos heven]
  induction before using pairInduction with
  | nil =>
      cases after with
      | nil => exact absurd heven Nat.not_even_one
      | cons vr after =>
          simp only [List.nil_append, List.length_cons, Nat.even_add_one, not_not] at heven
          -- The key of this pair is replaced.
          rw [List.nil_append, firstFaultPairs, hkey h.1, hQ vr h.2.1, hrest after h.2.2 heven,
            Option.none_or, Option.or_none]
  | single kr =>
      simp only [List.cons_append, List.nil_append, List.length_cons, Nat.even_add_one,
        not_not] at heven
      -- The value of this pair is replaced.
      rw [List.cons_append, List.nil_append, firstFaultPairs, hP kr h.1, hvalue h.2.1,
        hrest after h.2.2 heven, Option.none_or, Option.or_none]
  | pair kr vr before ih =>
      simp only [List.cons_append, List.length_cons, Nat.even_add_one, not_not] at heven
      rw [List.cons_append, List.cons_append, firstFaultPairs, hP kr h.1, hQ vr h.2.1,
        Option.none_or, Option.none_or]
      exact ih h.2.2 heven

/-! ### The tree -/

/-- What is left of the members of a class is not enough. -/
theorem firstFaultFields_kept : ∀ {σ : Type} (F : Fields σ), F.Unshadowed generatedLocals →
    ∀ (v : σ) (kept lost : List Record), lost ≠ [] → encodeFields F v = kept ++ lost →
      firstFaultFields F kept = some (.undefined .pastTheEnd)
  | _, .nil, _, _, kept, lost, hlost, h => by
      rw [encodeFields] at h
      exact absurd (List.append_eq_nil_iff.mp h.symm).2 hlost
  | _, .cons _ _ _, _, _, [], _, _, _ => rfl
  | _, .cons arg T F, hU, v, c :: kept, lost, hlost, h => by
      rw [encodeFields_cons arg T F hU.1, List.cons_append, List.cons.injEq] at h
      rw [firstFaultFields_cons arg T F hU.1, ← h.1, firstFault_encode T hU.2.1, Option.none_or]
      exact firstFaultFields_kept F hU.2.2 v.2 kept lost hlost h.2

mutual
/-- The fault in a tree that has lost records is that of the node which has lost
    them. -/
theorem firstFault_loses {lost : List Record} {node : Record} (hlost : lost ≠ []) :
    ∀ {α : Type} (T : Ty α), T.Unshadowed generatedLocals → ∀ (n : Str) (v : α) (r' : Record),
      Loses lost node (encode T n v) r' → firstFault T r' = lossFault node lost
  | _, .scalar s, _, n, v, r', h => by
      -- A scalar has no records to lose.
      rcases h.cases with ⟨rs, hrs, _⟩
      simp only [reduceCtorEq] at hrs
  | _, .char, _, n, v, r', h => by
      rcases h.cases with ⟨rs, hrs, _⟩
      simp only [reduceCtorEq] at hrs
  | _, .vector T, hU, n, v, r', h => by
      rcases h.cases with
        ⟨rs, hrs, ⟨kept, hkept, rfl, rfl⟩ | ⟨before, c, c', after, hc, hloses, rfl⟩⟩
      · -- The items that are left are as they were.
        rw [firstFault, faultInRecords_records, lossFault]
        refine List.findSome?_eq_none_iff.mpr ?_
        intro r hr
        have hmem : r ∈ v.map (encode T listItemRecordName) := by
          rw [Data.records.inj hrs, hkept]
          exact List.mem_append_left lost hr
        rcases List.mem_map.mp hmem with ⟨x, _, rfl⟩
        exact firstFault_encode T hU _ x
      · -- One of the items has lost them, and the others are fine.
        rw [hc] at hrs
        have hitems : ∀ r ∈ before ++ c :: after, ∃ x, encode T listItemRecordName x = r := by
          intro r hr
          rw [← Data.records.inj hrs] at hr
          rcases List.mem_map.mp hr with ⟨x, _, hx⟩
          exact ⟨x, hx⟩
        have hfine : ∀ r ∈ before ++ c :: after, firstFault T r = none := by
          intro r hr
          rcases hitems r hr with ⟨x, rfl⟩
          exact firstFault_encode T hU _ x
        rw [firstFault, faultInRecords_records, findSome?_replace _ before after c c' hfine]
        rcases hitems c (List.mem_append_right before List.mem_cons_self) with ⟨x, rfl⟩
        exact firstFault_loses hlost T hU _ x c' hloses
  | _, @Ty.map _ _ _ K V, hU, n, m, r', h => by
      rcases h.cases with ⟨rs, hrs, hcases⟩
      -- Keys and values of the map, one after the other.
      have hencoded : Alternate (fun r => ∃ k, encode K mapItemKeyRecordName k = r)
          (fun r => ∃ v, encode V mapItemValueRecordName v = r) rs := by
        rw [← Data.records.inj hrs, alternate_interleave]
        intro p hp
        rcases List.mem_map.mp hp with ⟨e, _, rfl⟩
        exact ⟨⟨e.1, rfl⟩, ⟨e.2, rfl⟩⟩
      have heven : Even rs.length := by
        rw [← Data.records.inj hrs, length_interleave]
        exact even_two_mul _
      have hkey : ∀ r, (∃ k, encode K mapItemKeyRecordName k = r) → firstFault K r = none := by
        rintro r ⟨k, rfl⟩
        exact firstFault_encode K hU.1 _ k
      have hvalue : ∀ r, (∃ v, encode V mapItemValueRecordName v = r) → firstFault V r = none := by
        rintro r ⟨v, rfl⟩
        exact firstFault_encode V hU.2 _ v
      rcases hcases with ⟨kept, hkept, rfl, rfl⟩ | ⟨before, c, c', after, hc, hloses, rfl⟩
      · -- Whole pairs are left, or there is a key without its value.
        rw [hkept] at hencoded heven
        have hfine := (Alternate.left _ _ kept lost hencoded).imp _ _ _ _ kept
          (fun r _ => hkey r) (fun r _ => hvalue r)
        have hparity : Even kept.length ↔ Even lost.length := by
          rw [List.length_append, Nat.even_add] at heven
          exact heven
        rw [firstFault, faultInRecords_records,
          firstFaultPairs_of_alternate _ _ _ kept hfine]
        simp only [lossFault, hparity]
      · -- A key or a value has lost them.
        rw [hc] at hencoded heven
        rw [firstFault, faultInRecords_records]
        refine firstFaultPairs_replace n _ _ _ _ hkey hvalue c c' after _ ?_ ?_ before hencoded
          heven
        · rintro ⟨k, rfl⟩
          exact firstFault_loses hlost K hU.1 _ k c' hloses
        · rintro ⟨v, rfl⟩
          exact firstFault_loses hlost V hU.2 _ v c' hloses
  | _, .cls F _, hU, n, v, r', h => by
      rcases h.cases with
        ⟨rs, hrs, ⟨kept, hkept, rfl, rfl⟩ | ⟨before, c, c', after, hc, hloses, rfl⟩⟩
      · rw [hkept] at hrs
        rw [firstFault, faultInRecords_records]
        exact firstFaultFields_kept F hU v kept lost hlost (Data.records.inj hrs)
      · rw [hc] at hrs
        rw [firstFault, faultInRecords_records]
        exact firstFaultFields_loses hlost F hU v before after c c' (Data.records.inj hrs) hloses
/-- The same for the members of a class: the one that has lost records is found
    behind others that are fine. -/
theorem firstFaultFields_loses {lost : List Record} {node : Record} (hlost : lost ≠ []) :
    ∀ {σ : Type} (F : Fields σ), F.Unshadowed generatedLocals →
      ∀ (v : σ) (before after : List Record) (c c' : Record),
        encodeFields F v = before ++ c :: after → Loses lost node c c' →
          firstFaultFields F (before ++ c' :: after) = lossFault node lost
  | _, .nil, _, _, before, after, c, _, h, _ => by
      rw [encodeFields] at h
      exact absurd h.symm (List.append_ne_nil_of_right_ne_nil before (List.cons_ne_nil c after))
  | _, .cons arg T F, hU, v, [], after, c, c', h, hloses => by
      rw [encodeFields_cons arg T F hU.1, List.nil_append, List.cons.injEq] at h
      rw [← h.1] at hloses
      rw [List.nil_append, firstFaultFields_cons arg T F hU.1, ← h.2,
        firstFaultFields_encode F hU.2.2, Option.or_none]
      exact firstFault_loses hlost T hU.2.1 _ v.1 c' hloses
  | _, .cons arg T F, hU, v, b :: before, after, c, c', h, hloses => by
      rw [encodeFields_cons arg T F hU.1, List.cons_append, List.cons.injEq] at h
      rw [List.cons_append, firstFaultFields_cons arg T F hU.1, ← h.1, firstFault_encode T hU.2.1,
        Option.none_or]
      exact firstFaultFields_loses hlost F hU.2.2 v.2 before after c c' h.2 hloses
end

/-- A record tree from the encoder that has lost the last records of some node
    is decoded, if no member is hidden, into any object without a fault where the
    node is a vector or the records are pairs of a map; where a map has lost an
    odd number of records, the exception names it; and where a class has lost any,
    its records are read past the end. -/
theorem deserialize_lossy (u : Uninit) {α : Type} (T : Ty α) (hT : T.Supported)
    (hU : T.Unshadowed generatedLocals) (n : Str) (v w : α) (cache cache' : NameCache)
    (hcache : T.CacheOk cache) (r : Record) (hr : serializeField T n v cache = .ok (r, cache'))
    (lost : List Record) (hlost : lost ≠ []) (node r' : Record) (h : Loses lost node r r') :
    (deserializeField u T w r').fault = lossFault node lost := by
  rcases serializeField_eq T hT n v cache hcache with ⟨cache'', henc, _⟩
  rw [hr] at henc
  rw [(Prod.mk.inj (Except.ok.inj henc)).1] at h
  rw [fault_deserializeField]
  exact firstFault_loses hlost T hU n v r' h

/-- The value of an entry is lost, in a map in a vector. -/
theorem deserialize_lossy_value :
    (deserializeField .zeroed (.vector mapFieldTy) [] ⟨.list, str "v", .records
        [⟨.map, listItemRecordName, .records
          [⟨.signedInt32, mapItemKeyRecordName, .scalar .int32 7⟩]⟩]⟩).fault =
      some (.nsException (endOfVectorMessage listItemRecordName)) := by
  refine deserialize_lossy .zeroed (.vector mapFieldTy) ⟨trivial, trivial⟩ ⟨trivial, trivial⟩
    (str "v") [SortedMap.empty.insert 7 (str "x")] [] .fresh _ (cacheOk_fresh _) _ rfl
    [⟨.string, mapItemValueRecordName, .scalar .string (str "x")⟩] (List.cons_ne_nil _ _) _ _
    (.deeper _ _ [] [] _ _ (.here _ _ [_] rfl))

end Nanoservices
