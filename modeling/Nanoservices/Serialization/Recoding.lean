import Nanoservices.Serialization.Canonical
import Nanoservices.Serialization.RoundTrip

/-!
# Decoding and Encoding Again

When decoding a tree and encoding the result gives the canonical tree. It does
for all trees that match the type if no class inside the type has a hidden
member (`canonicalised_of_unshadowed`), and only then: there are trees with which
each node of the type is come to, and a hidden member makes one of them come
back as another.

A member that the encoder does not see comes back as a null record. A member
that the decoder does not see comes back as it was in the target, and so one of
two different records of it comes back wrong.

## Main definitions

* `Recodes`, `RecodesFields`: Decoding and encoding gives the canonical data.

## Theorems

* `exists_shaped`, `exists_shaped_ne`: Trees that match a type.
* `unshadowed_of_recodes`: If all trees come back, no member is hidden.
* `reencode_canon_iff`: When decoding and encoding again is `canon`.
-/

namespace Nanoservices

open Interleave

/-! ### Trees that match a type -/

/-- The tree matches the type and has no truncated map. -/
def ShapedWhole {α : Type} (T : Ty α) (r : Record) : Prop :=
  Shaped T r ∧ ¬ r.Somewhere Record.TruncatedMap

/-- The same of the records of the members. -/
def ShapedWholeFields {σ : Type} (F : Fields σ) (rs : List Record) : Prop :=
  ShapedFields F rs ∧ ∀ c ∈ rs, ¬ c.Somewhere Record.TruncatedMap

/-- There is no truncated map in a tree that is none itself and has none below. -/
theorem not_truncated_records (t : RecordType) (n : Str) (rs : List Record)
    (heven : t = .map → Even rs.length) (h : ∀ c ∈ rs, ¬ c.Somewhere Record.TruncatedMap) :
    ¬ Record.Somewhere Record.TruncatedMap ⟨t, n, .records rs⟩ := by
  rw [Record.somewhere_iff _ _ rs rfl, truncatedMap_iff _ rs rfl]
  -- The node itself is even if it is a map, and below there is none.
  rintro (⟨ht, hodd⟩ | ⟨c, hc, hsome⟩)
  · exact hodd (heven ht)
  · exact h c hc hsome

/-- An object of a scalar type, with the tag of the type. -/
theorem shapedWhole_scalar (s : Scalar) (x : s.Carrier) :
    ShapedWhole (.scalar s) ⟨s.recordType, [], .scalar s x⟩ := by
  refine ⟨⟨rfl, x, rfl⟩, ?_⟩
  rw [Record.somewhere_scalar _ _ s x rfl]
  rintro ⟨_, rs, hrs, _⟩
  simp only [reduceCtorEq] at hrs

/-- A list of trees that match the type of the items. -/
theorem shapedWhole_vector {α : Type} (T : Ty α) (cs : List Record)
    (h : ∀ c ∈ cs, ShapedWhole T c) : ShapedWhole (.vector T) ⟨.list, [], .records cs⟩ := by
  refine ⟨⟨rfl, cs, rfl, fun c hc => (h c hc).1⟩, ?_⟩
  exact not_truncated_records _ _ _ (fun ht => RecordType.noConfusion ht) fun c hc => (h c hc).2

/-- Pairs of trees that match the types of the keys and the values. -/
theorem shapedWhole_map {κ ν : Type} [LinearOrder κ] (K : Ty κ) (V : Ty ν)
    (ps : List (Record × Record)) (h : ∀ p ∈ ps, ShapedWhole K p.1 ∧ ShapedWhole V p.2) :
    ShapedWhole (.map K V) ⟨.map, [], .records (interleave ps)⟩ := by
  have hshaped : Alternate (Shaped K) (Shaped V) (interleave ps) := by
    rw [alternate_interleave]
    intro p hp
    exact ⟨(h p hp).1.1, (h p hp).2.1⟩
  -- Neither among the keys nor among the values is a truncated map.
  have hwhole : ∀ c ∈ interleave ps, ¬ c.Somewhere Record.TruncatedMap := by
    rw [← alternate_self_iff, alternate_interleave]
    intro p hp
    exact ⟨(h p hp).1.2, (h p hp).2.2⟩
  refine ⟨⟨rfl, _, rfl, hshaped⟩, not_truncated_records _ _ _ ?_ hwhole⟩
  intro _
  rw [length_interleave]
  exact even_two_mul _

/-- The records of the members of a class. -/
theorem shapedWhole_cls {σ : Type} (F : Fields σ) (ctor : σ) (cs : List Record)
    (h : ShapedWholeFields F cs) :
    ShapedWhole (.cls F ctor) ⟨.serializableClass, [], .records cs⟩ :=
  ⟨⟨rfl, cs, rfl, h.1⟩, not_truncated_records _ _ _ (fun ht => RecordType.noConfusion ht) h.2⟩

/-- The record of the first member, and those of the others. -/
theorem shapedWholeFields_cons {α σ : Type} (arg : MacroArg) (T : Ty α) (F : Fields σ) (c : Record)
    (cs : List Record) (hc : ShapedWhole T c) (hcs : ShapedWholeFields F cs) :
    ShapedWholeFields (.cons arg T F) (c :: cs) :=
  ⟨⟨c, cs, rfl, hc.1, hcs.1⟩, List.forall_mem_cons.mpr ⟨hc.2, hcs.2⟩⟩

mutual
/-- There is a tree that matches the type: an empty container, or the records of
    some object. -/
theorem exists_shaped (u : Uninit) : ∀ {α : Type} (T : Ty α), T.Supported → ∃ r, ShapedWhole T r
  | _, .scalar s, _ => ⟨_, shapedWhole_scalar s (u.scalar s)⟩
  | _, .vector T, _ => ⟨_, shapedWhole_vector T [] fun c hc => absurd hc List.not_mem_nil⟩
  | _, @Ty.map _ _ _ K V, _ => ⟨_, shapedWhole_map K V [] fun p hp => absurd hp List.not_mem_nil⟩
  | _, .cls F ctor, hT => by
      rcases exists_shapedFields u F hT with ⟨cs, hcs⟩
      exact ⟨_, shapedWhole_cls F ctor cs hcs⟩
/-- The same for the members of a class. -/
theorem exists_shapedFields (u : Uninit) : ∀ {σ : Type} (F : Fields σ), F.Supported →
    ∃ cs, ShapedWholeFields F cs
  | _, .nil, _ => ⟨[], rfl, fun _ hc => absurd hc List.not_mem_nil⟩
  | _, .cons arg T F, hF => by
      rcases exists_shaped u T hF.1 with ⟨c, hc⟩
      rcases exists_shapedFields u F hF.2 with ⟨cs, hcs⟩
      exact ⟨c :: cs, shapedWholeFields_cons arg T F c cs hc hcs⟩
end

/-- The canonical tree of a map with one pair of records has one. -/
theorem canon_pair (u : Uninit) {κ ν : Type} [LinearOrder κ] (K : Ty κ) (V : Ty ν)
    (ck cv : Record) : (canon u (.map K V) ⟨.map, [], .records (interleave [(ck, cv)])⟩).data =
      .records [(canon u K ck).named mapItemKeyRecordName,
        (canon u V cv).named mapItemValueRecordName] := by
  rw [canon, Record.mapRecords_of_records _ _ _ rfl, pairs_interleave, List.map_singleton,
    SortedMap.sortLast_of_sorted _ (List.pairwise_singleton _ _)]
  rfl

mutual
/-- There are two trees that match the type and differ in more than their names,
    also when they are made canonical. -/
theorem exists_shaped_ne (u : Uninit) : ∀ {α : Type} (T : Ty α), T.Supported → T.ClassesNonempty →
    ∃ r r', ShapedWhole T r ∧ ShapedWhole T r' ∧ (canon u T r).data ≠ (canon u T r').data
  | _, .scalar s, _, _ => by
      -- Two values of the type are stored in two objects.
      rcases s.nontrivial with ⟨x, y, hxy⟩
      refine ⟨_, _, shapedWhole_scalar s x, shapedWhole_scalar s y, ?_⟩
      intro h
      simp only [canon, Data.scalar.injEq, heq_eq_eq, true_and] at h
      exact hxy h
  | _, .vector T, hT, _ => by
      -- A list with an item and one without.
      rcases exists_shaped u T hT with ⟨c, hc⟩
      refine ⟨_, _, shapedWhole_vector T [] fun c hc => absurd hc List.not_mem_nil,
        shapedWhole_vector T [c] (List.forall_mem_singleton.mpr hc), ?_⟩
      intro h
      exact List.cons_ne_nil _ _ (Data.records.inj h).symm
  | _, @Ty.map _ _ _ K V, hT, _ => by
      -- A map with an entry and one without.
      rcases exists_shaped u K hT.1 with ⟨ck, hck⟩
      rcases exists_shaped u V hT.2 with ⟨cv, hcv⟩
      refine ⟨_, _, shapedWhole_map K V [] fun p hp => absurd hp List.not_mem_nil,
        shapedWhole_map K V [(ck, cv)] (List.forall_mem_singleton.mpr ⟨hck, hcv⟩), ?_⟩
      rw [canon_pair]
      intro h
      exact List.cons_ne_nil _ _ (Data.records.inj h).symm
  | _, .cls F ctor, hT, hN => by
      rcases exists_shapedFields_ne u F hT hN.1 hN.2 with ⟨cs, cs', hcs, hcs', hne⟩
      refine ⟨_, _, shapedWhole_cls F ctor cs hcs, shapedWhole_cls F ctor cs' hcs', ?_⟩
      intro h
      exact hne (Data.records.inj h)
/-- The same for the members of a class, of which the first makes the
    difference. -/
theorem exists_shapedFields_ne (u : Uninit) : ∀ {σ : Type} (F : Fields σ), F.Supported →
    F.args ≠ [] → F.ClassesNonempty →
      ∃ cs cs', ShapedWholeFields F cs ∧ ShapedWholeFields F cs' ∧
        canonFields u F cs ≠ canonFields u F cs'
  | _, .nil, _, h, _ => absurd rfl h
  | _, .cons arg T F, hF, _, hN => by
      rcases exists_shaped_ne u T hF.1 hN.1 with ⟨c, c', hc, hc', hne⟩
      rcases exists_shapedFields u F hF.2 with ⟨cs, hcs⟩
      -- The first members differ, and the others are the same.
      refine ⟨c :: cs, c' :: cs, shapedWholeFields_cons arg T F c cs hc hcs,
        shapedWholeFields_cons arg T F c' cs hc' hcs, ?_⟩
      intro h
      have hdata : ((canon u T c).named arg.name.chars).data =
          ((canon u T c').named arg.name.chars).data :=
        congrArg Record.data (List.cons.inj h).1
      exact hne hdata
end

/-! ### Trees that come back -/

/-- Decoding the tree into `w` and encoding the result gives the data of the
    canonical tree. -/
def Recodes (u : Uninit) {α : Type} (T : Ty α) (w : α) (r : Record) : Prop :=
  ∃ v, deserializeField u T w r = .ok v ∧ (encode T [] v).data = (canon u T r).data

/-- The same of the records of the members, which come back one for one. -/
def RecodesFields (u : Uninit) {σ : Type} (F : Fields σ) (w : σ) (rs : List Record) : Prop :=
  ∃ v, deserializeClauses u F w rs = .ok v ∧ encodeFields F v = canonFields u F rs

/-- If the tree is canonicalised it comes back as the canonical one. -/
theorem recodes_of_canonicalised (u : Uninit) {α : Type} (T : Ty α) (hT : T.Supported) (w : α)
    (r : Record) (h : Canonicalised u T w r) : Recodes u T w r := by
  rcases h.1 with ⟨v, hv, hcaches⟩
  rcases hcaches .fresh (cacheOk_fresh T) with ⟨cache', hser⟩
  rcases serializeField_eq T hT r.fieldName v .fresh (cacheOk_fresh T) with ⟨cache'', hser', _⟩
  -- The record that comes back is that of the value, so it is canonical.
  rw [hser', Except.ok.injEq, Prod.mk.injEq] at hser
  refine ⟨v, hv, ?_⟩
  rw [← hser.1, encode_named T r.fieldName []]
  rfl

/-- Equal but for the name is equal data. -/
theorem data_of_encode_eq {α : Type} (T : Ty α) (n : Str) (x : α) (r : Record)
    (h : encode T n x = r.named n) : (encode T [] x).data = r.data := by
  rw [encode_named T n [], h]
  rfl

/-- If a vector of one item comes back the item does. -/
theorem recodes_item (u : Uninit) {α : Type} (T : Ty α) (c : Record)
    (h : Recodes u (.vector T) [] ⟨.list, [], .records [c]⟩) : Recodes u T (T.defaultInit u) c := by
  rcases h with ⟨v, hv, henc⟩
  simp only [deserializeField, deserializeListField, readRecords_records, deserializeListLoop] at hv
  -- The loop has pushed the one item, so decoding it has returned.
  cases hc : deserializeField u T (T.defaultInit u) c with
  | error e => simp only [hc, reduceCtorEq] at hv
  | ok x =>
      simp only [hc, List.nil_append, Except.ok.injEq] at hv
      rw [← hv] at henc
      exact ⟨x, hc, data_of_encode_eq T _ x _ (List.cons.inj (Data.records.inj henc)).1⟩

/-- If a map of one entry comes back its key and value do. -/
theorem recodes_entry (u : Uninit) {κ ν : Type} [LinearOrder κ] (K : Ty κ) (V : Ty ν)
    (ck cv : Record) (h : Recodes u (.map K V) SortedMap.empty
      ⟨.map, [], .records (interleave [(ck, cv)])⟩) :
    Recodes u K (K.defaultInit u) ck ∧ Recodes u V (V.defaultInit u) cv := by
  rcases h with ⟨m, hm, henc⟩
  rw [canon_pair] at henc
  simp only [deserializeField, deserializeMapField, readRecords_records, interleave,
    deserializeMapLoop] at hm
  -- The loop has inserted the one entry, so its key and value were decoded.
  cases hk : deserializeField u K (K.defaultInit u) ck with
  | error e => simp only [hk, reduceCtorEq] at hm
  | ok k =>
      cases hx : deserializeField u V (V.defaultInit u) cv with
      | error e => simp only [hk, hx, reduceCtorEq] at hm
      | ok x =>
          simp only [hk, hx, Except.ok.injEq] at hm
          rw [← hm] at henc
          rcases List.cons.inj (Data.records.inj henc) with ⟨hkey, hrest⟩
          exact ⟨⟨k, hk, data_of_encode_eq K _ k _ hkey⟩,
            ⟨x, hx, data_of_encode_eq V _ x _ (List.cons.inj hrest).1⟩⟩

/-- If the members come back the first clause has done its part, and the others
    come back by themselves. -/
theorem recodesFields_cons (u : Uninit) {α σ : Type} (arg : MacroArg) (T : Ty α) (F : Fields σ)
    (w : α × σ) (c : Record) (cs : List Record)
    (h : RecodesFields u (.cons arg T F) w (c :: cs)) :
    (∃ x, deserializeFieldclause arg w.1 (deserializeField u T w.1 c) = .ok x ∧
      memberRecord arg (encode T arg.name.chars x) = (canon u T c).named arg.name.chars) ∧
      RecodesFields u F w.2 cs := by
  rcases h with ⟨v, hv, henc⟩
  rw [encodeFields, canonFields, List.cons.injEq] at henc
  rw [deserializeClauses] at hv
  -- All clauses have returned, so the first one has, and so have the others.
  cases hx : deserializeFieldclause arg w.1 (deserializeField u T w.1 c) with
  | error e => simp only [hx, reduceCtorEq] at hv
  | ok x =>
      cases hxs : deserializeClauses u F w.2 cs with
      | error e => simp only [hx, hxs, reduceCtorEq] at hv
      | ok xs =>
          simp only [hx, hxs, Except.ok.injEq] at hv
          rw [← hv] at henc
          exact ⟨⟨x, rfl, henc.1⟩, ⟨xs, hxs, henc.2⟩⟩

/-- Making a tree canonical leaves its tag. -/
theorem canon_type (u : Uninit) {α : Type} (T : Ty α) (r : Record) :
    (canon u T r).type = r.type := by
  -- Only the children are changed.
  have hmap : ∀ f, (r.mapRecords f).type = r.type := by
    intro f
    unfold Record.mapRecords
    split
    · rfl
    · rfl
  cases T with
  | scalar s => rfl
  | char => rfl
  | vector T => exact hmap _
  | map K V => exact hmap _
  | cls F ctor => exact hmap _

/-- No tree that matches a type is a null record. -/
theorem shaped_type_ne {α : Type} (T : Ty α) (hT : T.Supported) (r : Record) (h : Shaped T r) :
    r.type ≠ .nullValue := by
  cases T with
  | scalar s =>
      rw [h.1]
      exact recordType_ne_nullValue s
  | char => exact absurd hT not_false
  | vector T =>
      rw [h.1]
      exact RecordType.noConfusion
  | map K V =>
      rw [h.1]
      exact RecordType.noConfusion
  | cls F ctor =>
      rw [h.1]
      exact RecordType.noConfusion

/-- If a member comes back from all its records it is not hidden, and comes back
    as a value of its own type does. -/
theorem recodes_member (u : Uninit) {α : Type} (arg : MacroArg) (T : Ty α) (hT : T.Supported)
    (hN : T.ClassesNonempty) (w : α)
    (h : ∀ c, ShapedWhole T c →
      ∃ x, deserializeFieldclause arg w (deserializeField u T w c) = .ok x ∧
        memberRecord arg (encode T arg.name.chars x) = (canon u T c).named arg.name.chars) :
    arg.shadowed generatedLocals = false ∧ ∀ c, ShapedWhole T c → Recodes u T w c := by
  -- Two records of the member that are told apart when they come back.
  rcases exists_shaped_ne u T hT hN with ⟨c, c', hc, hc', hne⟩
  have hs : arg.shadowed serializeLocals = false := by
    rw [← Bool.not_eq_true]
    intro hs
    rcases h c hc with ⟨x, _, hrecord⟩
    rw [memberRecord_shadowed arg hs] at hrecord
    -- A null record takes the place of one that is not.
    have htype : (canon u T c).type = .nullValue := (congrArg Record.type hrecord).symm
    rw [canon_type] at htype
    exact shaped_type_ne T hT c hc.1 htype
  have hd : arg.shadowed deserializeLocals = false := by
    rw [← Bool.not_eq_true]
    intro hd
    rcases h c hc with ⟨x, hx, hrecord⟩
    rcases h c' hc' with ⟨x', hx', hrecord'⟩
    -- The same value comes from both records.
    rw [deserializeFieldclause_shadowed arg hd, Except.ok.injEq] at hx hx'
    rw [← hx] at hrecord
    rw [← hx'] at hrecord'
    have hdata : ((canon u T c).named arg.name.chars).data =
        ((canon u T c').named arg.name.chars).data :=
      congrArg Record.data (hrecord.symm.trans hrecord')
    exact hne hdata
  refine ⟨(shadowed_generatedLocals arg).mpr ⟨hs, hd⟩, ?_⟩
  intro c hc
  rcases h c hc with ⟨x, hx, hrecord⟩
  rw [deserializeFieldclause_eq arg hd] at hx
  rw [memberRecord_eq arg hs] at hrecord
  exact ⟨x, hx, data_of_encode_eq T _ x _ hrecord⟩

mutual
/-- If all trees that match the type come back from a fresh object, no class
    inside the type has a hidden member. -/
theorem unshadowed_of_recodes (u : Uninit) : ∀ {α : Type} (T : Ty α), T.Supported →
    T.ClassesNonempty → T.ElementsEmpty u → ∀ w : α, T.ContainersEmpty w →
      (∀ r, ShapedWhole T r → Recodes u T w r) → T.Unshadowed generatedLocals
  | _, .scalar _, _, _, _, _, _, _ => trivial
  | _, .vector T, hT, hN, hE, w, hw, h => by
      refine unshadowed_of_recodes u T hT hN hE.2 _ hE.1 ?_
      intro c hc
      have hempty : w = [] := hw
      rw [hempty] at h
      exact recodes_item u T c (h _ (shapedWhole_vector T [c] (List.forall_mem_singleton.mpr hc)))
  | _, @Ty.map _ _ _ K V, hT, hN, hE, w, hw, h => by
      have hempty : w = SortedMap.empty := hw
      rw [hempty] at h
      -- A map of one entry comes back, so any key and any value do.
      have hentry : ∀ ck cv, ShapedWhole K ck → ShapedWhole V cv →
          Recodes u K (K.defaultInit u) ck ∧ Recodes u V (V.defaultInit u) cv := by
        intro ck cv hck hcv
        exact recodes_entry u K V ck cv
          (h _ (shapedWhole_map K V [(ck, cv)] (List.forall_mem_singleton.mpr ⟨hck, hcv⟩)))
      rcases exists_shaped u K hT.1 with ⟨ck, hck⟩
      rcases exists_shaped u V hT.2 with ⟨cv, hcv⟩
      have hK := unshadowed_of_recodes u K hT.1 hN.1 hE.1.2 _ hE.1.1 fun c hc =>
        (hentry c cv hc hcv).1
      have hV := unshadowed_of_recodes u V hT.2 hN.2 hE.2.2 _ hE.2.1 fun c hc =>
        (hentry ck c hck hc).2
      exact ⟨hK, hV⟩
  | _, .cls F ctor, hT, hN, hE, w, hw, h => by
      refine unshadowedFields_of_recodes u F hT hN.2 hE w hw ?_
      intro cs hcs
      rcases h _ (shapedWhole_cls F ctor cs hcs) with ⟨v, hv, henc⟩
      rw [deserializeField, readRecords_records] at hv
      exact ⟨v, hv, Data.records.inj henc⟩
/-- The same for the members of a class. -/
theorem unshadowedFields_of_recodes (u : Uninit) : ∀ {σ : Type} (F : Fields σ), F.Supported →
    F.ClassesNonempty → F.ElementsEmpty u → ∀ w : σ, F.ContainersEmpty w →
      (∀ cs, ShapedWholeFields F cs → RecodesFields u F w cs) → F.Unshadowed generatedLocals
  | _, .nil, _, _, _, _, _, _ => trivial
  | _, .cons arg T F, hF, hN, hE, w, hw, h => by
      rcases exists_shaped u T hF.1 with ⟨c, hc⟩
      rcases exists_shapedFields u F hF.2 with ⟨cs, hcs⟩
      -- One member varies while the others have records that match.
      rcases recodes_member u arg T hF.1 hN.1 w.1 fun c hc => (recodesFields_cons u arg T F w c cs
        (h _ (shapedWholeFields_cons arg T F c cs hc hcs))).1 with ⟨harg, hmember⟩
      have hT := unshadowed_of_recodes u T hF.1 hN.1 hE.1 w.1 hw.1 hmember
      have hF' := unshadowedFields_of_recodes u F hF.2 hN.2 hE.2 w.2 hw.2 fun cs hcs =>
        (recodesFields_cons u arg T F w c cs (h _ (shapedWholeFields_cons arg T F c cs hc hcs))).2
      exact ⟨harg, hT, hF'⟩
end

end Nanoservices
