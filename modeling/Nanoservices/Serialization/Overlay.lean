import Nanoservices.Serialization.Encoding
import Nanoservices.Serialization.Safety

/-!
# Decoding What Was Encoded

The decoder on a tree that the encoder wrote, for any contents of the target.
What it leaves in the target is `overlay`: a scalar is replaced, a vector is
appended to, a map has the new entries inserted over the old, a class is
overlaid member by member, and a member that a variable of the decoder hides
stays as it is. Items, keys and values are overlaid on freshly declared objects.

The decoder returns if it does not come to the null record that the encoder
writes for a member which one of its own variables hides. That is a condition on
the value, `Arrives`, and an exact one (`returns_encode_iff`).

Where the containers of the target are empty, and those of freshly declared
items, keys and values too, and no member is hidden from the decoder, there is
nothing to overlay. In general there is, and `Absorbed` says exactly when the
old contents leave no trace: if every vector was empty, every map held only keys
that come again, and every hidden member was right before.

## Main definitions

* `overlay`, `overlayFields`: The target after decoding a value into it.
* `Arrives`, `ArrivesFields`: No null record is decoded as a member.
* `Absorbed`, `AbsorbedFields`: Decoding leaves no trace of the old contents.
* `Ty.KeysFaithful`: Nothing is lost in keys.

## Theorems

* `deserializeListLoop_map`, `deserializeMapLoop_interleave`: The loops over
  records that decode.
* `deserializeField_encode`: Decoding an encoded value overlays it.
* `returns_encode_iff`: When decoding an encoded value returns.
* `map_entries_eq_self`: Entries that stay the same.
* `overlay_of_containersEmpty`: Nothing to overlay.
* `overlay_of_absorbed`, `absorbed_of_overlay`: When overlaying leaves no
  trace.
* `overlay_idem`, `absorbed_of_overlay_empty`: The same for empty targets.
-/

namespace Nanoservices

open Interleave

mutual
/-- The target that held `w`, after the record of `v` was decoded into it. Of
    `w` there remain the items of vectors, the entries of maps under other keys,
    and the hidden members. -/
def overlay (u : Uninit) : {α : Type} → Ty α → α → α → α
  | _, .scalar _, _, v => v
  | _, .char, w, _ => w
  | _, .vector T, w, v => w ++ v.map (overlay u T (T.defaultInit u))
  | _, @Ty.map _ _ _ K V, w, m => w.insertAll (m.entries.map fun e =>
      (overlay u K (K.defaultInit u) e.1, overlay u V (V.defaultInit u) e.2))
  | _, .cls F _, w, v => overlayFields u F w v
/-- The same for the members of a class. -/
def overlayFields (u : Uninit) : {σ : Type} → Fields σ → σ → σ → σ
  | _, .nil, w, _ => w
  | _, .cons arg T F, w, v =>
    (if arg.shadowed deserializeLocals then w.1 else overlay u T w.1 v.1,
      overlayFields u F w.2 v.2)
end

mutual
/-- No member that the decoder comes to has a null record in place of its own. -/
def Arrives : {α : Type} → Ty α → α → Prop
  | _, .scalar _, _ => True
  | _, .char, _ => True
  | _, .vector T, v => ∀ x ∈ v, Arrives T x
  | _, @Ty.map _ _ _ K V, m => ∀ e ∈ m.entries, Arrives K e.1 ∧ Arrives V e.2
  | _, .cls F _, v => ArrivesFields F v
/-- The same for the members of a class: one that the decoder comes to must not
    be hidden from the encoder. -/
def ArrivesFields : {σ : Type} → Fields σ → σ → Prop
  | _, .nil, _ => True
  | _, .cons arg T F, v =>
    (arg.shadowed deserializeLocals = false →
      arg.shadowed serializeLocals = false ∧ Arrives T v.1) ∧ ArrivesFields F v.2
end

mutual
/-- Where the encoder has no hidden members there are no null records, and every
    value arrives. -/
theorem arrives_of_unshadowed : ∀ {α : Type} (T : Ty α), T.Unshadowed serializeLocals →
    ∀ v : α, Arrives T v
  | _, .scalar _, _, _ => trivial
  | _, .char, _, _ => trivial
  | _, .vector T, h, _ => by
      intro x _
      exact arrives_of_unshadowed T h x
  | _, @Ty.map _ _ _ K V, h, _ => by
      intro e _
      exact ⟨arrives_of_unshadowed K h.1 e.1, arrives_of_unshadowed V h.2 e.2⟩
  | _, .cls F _, h, v => arrivesFields_of_unshadowed F h v
/-- The same for the members of a class. -/
theorem arrivesFields_of_unshadowed : ∀ {σ : Type} (F : Fields σ), F.Unshadowed serializeLocals →
    ∀ v : σ, ArrivesFields F v
  | _, .nil, _, _ => trivial
  | _, .cons _ T F, h, v => by
      refine ⟨?_, arrivesFields_of_unshadowed F h.2.2 v.2⟩
      intro _
      exact ⟨h.1, arrives_of_unshadowed T h.2.1 v.1⟩
end

/-- A member that is not hidden is overlaid, and then the others are. -/
theorem overlayFields_cons (u : Uninit) {α σ : Type} (arg : MacroArg) (T : Ty α) (F : Fields σ)
    (h : arg.shadowed deserializeLocals = false) (w v : α × σ) :
    overlayFields u (.cons arg T F) w v = (overlay u T w.1 v.1, overlayFields u F w.2 v.2) := by
  rw [overlayFields, h, if_neg Bool.false_ne_true]

/-! ### The decoder on encoded values -/

/-- The list loop appends an item for each record that decodes. -/
theorem deserializeListLoop_map {α β : Type} (t : α) (item : α → Record → Decoded α)
    (enc : β → Record) (f : β → α) (xs : List β) (h : ∀ x ∈ xs, item t (enc x) = .ok (f x))
    (target : List α) :
    deserializeListLoop t item target (xs.map enc) = .ok (target ++ xs.map f) := by
  induction xs generalizing target with
  | nil => rw [List.map_nil, List.map_nil, List.append_nil, deserializeListLoop]
  | cons x xs ih =>
      rw [List.forall_mem_cons] at h
      -- The first item is pushed, and the loop goes on with the longer vector.
      rw [List.map_cons, deserializeListLoop, h.1]
      simp only [ih h.2, List.append_assoc, List.singleton_append, List.map_cons]

/-- The map loop inserts an entry for each pair of records that decodes. -/
theorem deserializeMapLoop_interleave {κ ν β : Type} [LinearOrder κ] (n : Str) (k₀ : κ) (v₀ : ν)
    (keyItem : κ → Record → Decoded κ) (valueItem : ν → Record → Decoded ν)
    (encK encV : β → Record) (f : β → κ) (g : β → ν) (xs : List β)
    (hk : ∀ x ∈ xs, keyItem k₀ (encK x) = .ok (f x))
    (hv : ∀ x ∈ xs, valueItem v₀ (encV x) = .ok (g x)) (target : SortedMap κ ν) :
    deserializeMapLoop n k₀ v₀ keyItem valueItem target
        (interleave (xs.map fun x => (encK x, encV x))) =
      .ok (target.insertAll (xs.map fun x => (f x, g x))) := by
  induction xs generalizing target with
  | nil => rfl
  | cons x xs ih =>
      rw [List.forall_mem_cons] at hk hv
      -- The first two records are a key and a value, and their entry is inserted.
      rw [List.map_cons, interleave, deserializeMapLoop, hk.1]
      simp only [hv.1, ih hk.2 hv.2, List.map_cons, SortedMap.insertAll_cons]

mutual
/-- Decoding the record of a value overlays the value on the target. -/
theorem deserializeField_encode (u : Uninit) : ∀ {α : Type} (T : Ty α) (n : Str) (w v : α),
    Arrives T v → deserializeField u T w (encode T n v) = .ok (overlay u T w v)
  | _, .scalar s, n, w, v, _ => by
      simp only [deserializeField, encode, readScalar_scalar, overlay]
  | _, .char, n, w, v, _ => rfl
  | _, .vector T, n, w, v, h => by
      have hitem : ∀ x ∈ v, deserializeField u T (T.defaultInit u)
          (encode T listItemRecordName x) = .ok (overlay u T (T.defaultInit u) x) := by
        intro x hx
        exact deserializeField_encode u T _ _ x (h x hx)
      simp only [deserializeField, deserializeListField, encode, readRecords_records, overlay]
      exact deserializeListLoop_map _ _ _ _ v hitem w
  | _, @Ty.map _ _ _ K V, n, w, m, h => by
      have hkey : ∀ e ∈ m.entries, deserializeField u K (K.defaultInit u)
          (encode K mapItemKeyRecordName e.1) = .ok (overlay u K (K.defaultInit u) e.1) := by
        intro e he
        exact deserializeField_encode u K _ _ e.1 (h e he).1
      have hvalue : ∀ e ∈ m.entries, deserializeField u V (V.defaultInit u)
          (encode V mapItemValueRecordName e.2) = .ok (overlay u V (V.defaultInit u) e.2) := by
        intro e he
        exact deserializeField_encode u V _ _ e.2 (h e he).2
      simp only [deserializeField, deserializeMapField, encode, readRecords_records, overlay]
      exact deserializeMapLoop_interleave _ _ _ _ _ _ _ _ _ m.entries hkey hvalue w
  | _, .cls F _, n, w, v, h => by
      simp only [deserializeField, encode, readRecords_records, overlay]
      exact deserializeClauses_encode u F w v h
/-- The same for the members of a class, one record for each. -/
theorem deserializeClauses_encode (u : Uninit) : ∀ {σ : Type} (F : Fields σ) (w v : σ),
    ArrivesFields F v → deserializeClauses u F w (encodeFields F v) = .ok (overlayFields u F w v)
  | _, .nil, w, v, _ => rfl
  | _, .cons arg T F, w, v, h => by
      have hmember : deserializeFieldclause arg w.1 (deserializeField u T w.1
          (memberRecord arg (encode T arg.name.chars v.1))) =
          .ok (if arg.shadowed deserializeLocals then w.1 else overlay u T w.1 v.1) := by
        -- A hidden member keeps what it held, and any other has its own record.
        cases hd : arg.shadowed deserializeLocals with
        | true => exact deserializeFieldclause_shadowed arg hd w.1 _
        | false =>
            rcases h.1 hd with ⟨hs, hv⟩
            rw [deserializeFieldclause_eq arg hd, memberRecord_eq arg hs,
              deserializeField_encode u T _ w.1 v.1 hv]
            rfl
      simp only [encodeFields, deserializeClauses, hmember,
        deserializeClauses_encode u F w.2 v.2 h.2, overlayFields]
end

/-- No type is decoded from a null record: there is neither a scalar nor a
    vector of records behind a null pointer. -/
theorem not_readable_null (whole : Bool) : ∀ {α : Type} (T : Ty α), T.Supported → ∀ n : Str,
    ¬ Readable whole T ⟨.nullValue, n, .null⟩
  | _, .scalar _, _, _ => by
      rintro ⟨x, hx⟩
      simp only [reduceCtorEq] at hx
  | _, .vector _, _, _ => by
      rintro ⟨rs, hrs, _⟩
      simp only [reduceCtorEq] at hrs
  | _, @Ty.map _ _ _ _ _, _, _ => by
      rintro ⟨rs, hrs, _⟩
      simp only [reduceCtorEq] at hrs
  | _, .cls _ _, _, _ => by
      rintro ⟨rs, hrs, _⟩
      simp only [reduceCtorEq] at hrs

mutual
/-- A value whose record can be read arrives. -/
theorem arrives_of_readable : ∀ {α : Type} (T : Ty α), T.Supported → ∀ (n : Str) (v : α),
    Readable true T (encode T n v) → Arrives T v
  | _, .scalar _, _, _, _, _ => trivial
  | _, .vector T, hT, n, v, h => by
      rcases h with ⟨rs, hrs, hitems⟩
      -- The records that are read are those of the items.
      rw [← Data.records.inj hrs, List.forall_mem_map] at hitems
      intro x hx
      exact arrives_of_readable T hT _ x (hitems x hx)
  | _, @Ty.map _ _ _ K V, hT, n, m, h => by
      rcases h with ⟨rs, hrs, hitems, _⟩
      rw [← Data.records.inj hrs, alternate_interleave, List.forall_mem_map] at hitems
      intro e he
      have hkey := arrives_of_readable K hT.1 _ e.1 (hitems e he).1
      have hvalue := arrives_of_readable V hT.2 _ e.2 (hitems e he).2
      exact ⟨hkey, hvalue⟩
  | _, .cls F _, hT, n, v, h => by
      rcases h with ⟨rs, hrs, hmembers⟩
      rw [← Data.records.inj hrs] at hmembers
      exact arrivesFields_of_readable F hT v hmembers
/-- The same for the members of a class. -/
theorem arrivesFields_of_readable : ∀ {σ : Type} (F : Fields σ), F.Supported → ∀ v : σ,
    ReadableFields true F (encodeFields F v) → ArrivesFields F v
  | _, .nil, _, _, _ => trivial
  | _, .cons arg T F, hF, v, h => by
      rw [encodeFields, readableFields_cons_iff] at h
      refine ⟨?_, arrivesFields_of_readable F hF.2 v.2 h.2⟩
      intro hd
      have hread := h.1 hd
      -- A member that is hidden from the encoder would have a null record here.
      cases hs : arg.shadowed serializeLocals with
      | true =>
          rw [memberRecord_shadowed arg hs] at hread
          exact absurd hread (not_readable_null true T hF.1 _)
      | false =>
          rw [memberRecord_eq arg hs] at hread
          exact ⟨rfl, arrives_of_readable T hF.1 _ v.1 hread⟩
end

/-- Decoding the record of a value returns exactly if the value arrives. -/
theorem returns_encode_iff (u : Uninit) {α : Type} (T : Ty α) (hT : T.Supported) (n : Str)
    (w v : α) : Returns (deserializeField u T w (encode T n v)) ↔ Arrives T v := by
  constructor
  · intro h
    exact arrives_of_readable T hT n v ((returns_iff u T hT w _).mp h)
  · intro h
    exact ⟨_, deserializeField_encode u T n w v h⟩

/-! ### Empty targets -/

/-- Entries of which no key and no value changes stay the same. -/
theorem map_entries_eq_self {κ ν : Type} (f : κ → κ) (g : ν → ν) (l : List (κ × ν))
    (h : ∀ e ∈ l, f e.1 = e.1 ∧ g e.2 = e.2) : (l.map fun e => (f e.1, g e.2)) = l := by
  have hid : ∀ e ∈ l, (f e.1, g e.2) = id e := fun e he => Prod.ext (h e he).1 (h e he).2
  rw [List.map_congr_left hid, List.map_id]

mutual
/-- Where the containers are empty and no member is hidden there is nothing to
    overlay, and decoding leaves the serialized value. -/
theorem overlay_of_containersEmpty (u : Uninit) : ∀ {α : Type} (T : Ty α), T.Supported →
    T.Unshadowed deserializeLocals → T.ElementsEmpty u → ∀ w v : α, T.ContainersEmpty w →
      overlay u T w v = v
  | _, .scalar _, _, _, _, _, _, _ => by rw [overlay]
  | _, .vector T, hT, hU, hE, w, v, hw => by
      -- Items are decoded into fresh objects, whose containers are empty.
      have hid : ∀ x ∈ v, overlay u T (T.defaultInit u) x = id x := by
        intro x _
        exact overlay_of_containersEmpty u T hT hU hE.2 _ x hE.1
      have hempty : w = [] := hw
      rw [overlay, hempty, List.map_congr_left hid, List.map_id, List.nil_append]
  | _, @Ty.map _ _ _ K V, hT, hU, hE, w, m, hw => by
      -- So are keys and values, and inserting a map's own entries rebuilds it.
      have hempty : w = SortedMap.empty := hw
      rw [overlay, hempty, map_entries_eq_self (overlay u K (K.defaultInit u)),
        SortedMap.insertAll_entries_empty]
      intro e _
      have hkey := overlay_of_containersEmpty u K hT.1 hU.1 hE.1.2 _ e.1 hE.1.1
      have hvalue := overlay_of_containersEmpty u V hT.2 hU.2 hE.2.2 _ e.2 hE.2.1
      exact ⟨hkey, hvalue⟩
  | _, .cls F _, hT, hU, hE, w, v, hw => by
      unfold overlay
      exact overlayFields_of_containersEmpty u F hT hU hE w v hw
/-- The same for the members of a class. -/
theorem overlayFields_of_containersEmpty (u : Uninit) : ∀ {σ : Type} (F : Fields σ), F.Supported →
    F.Unshadowed deserializeLocals → F.ElementsEmpty u → ∀ w v : σ, F.ContainersEmpty w →
      overlayFields u F w v = v
  | _, .nil, _, _, _, _, _, _ => rfl
  | _, .cons arg T F, hF, hU, hE, w, v, hw => by
      have hfirst := overlay_of_containersEmpty u T hF.1 hU.2.1 hE.1 w.1 v.1 hw.1
      have hrest := overlayFields_of_containersEmpty u F hF.2 hU.2.2 hE.2 w.2 v.2 hw.2
      rw [overlayFields_cons u arg T F hU.1]
      exact Prod.ext hfirst hrest
end

/-! ### Targets with old contents -/

mutual
/-- Decoding `v` into a target that held `w` leaves no trace of `w`: each
    vector was empty, each map held only keys that `v` has, each hidden member
    was what it should become, and the same for freshly declared items, keys and
    values. -/
def Absorbed (u : Uninit) : {α : Type} → Ty α → α → α → Prop
  | _, .scalar _, _, _ => True
  | _, .char, w, v => w = v
  | _, .vector T, w, v => w = [] ∧ ∀ x ∈ v, Absorbed u T (T.defaultInit u) x
  | _, @Ty.map _ _ _ K V, w, m => (∀ k ∈ w.keys, k ∈ m.keys) ∧
      ∀ e ∈ m.entries, Absorbed u K (K.defaultInit u) e.1 ∧ Absorbed u V (V.defaultInit u) e.2
  | _, .cls F _, w, v => AbsorbedFields u F w v
/-- The same for the members of a class, hidden or not. -/
def AbsorbedFields (u : Uninit) : {σ : Type} → Fields σ → σ → σ → Prop
  | _, .nil, _, _ => True
  | _, .cons arg T F, w, v =>
    (if arg.shadowed deserializeLocals then w.1 = v.1 else Absorbed u T w.1 v.1) ∧
      AbsorbedFields u F w.2 v.2
end

mutual
/-- Map keys decode to what they were: freshly declared ones have empty
    containers, and no member of a class in a key is hidden. -/
def Ty.KeysFaithful (u : Uninit) : {α : Type} → Ty α → Prop
  | _, .scalar _ => True
  | _, .char => True
  | _, .vector T => T.KeysFaithful u
  | _, @Ty.map _ _ _ K V => (K.ContainersEmpty (K.defaultInit u) ∧ K.ElementsEmpty u ∧
      K.Unshadowed deserializeLocals) ∧ V.KeysFaithful u
  | _, .cls F _ => F.KeysFaithful u
def Fields.KeysFaithful (u : Uninit) : {σ : Type} → Fields σ → Prop
  | _, .nil => True
  | _, .cons _ T F => T.KeysFaithful u ∧ F.KeysFaithful u
end

/-- A class is left with its value if each member is. -/
theorem overlayFields_cons_eq_iff (u : Uninit) {α σ : Type} (arg : MacroArg) (T : Ty α)
    (F : Fields σ) (w v : α × σ) :
    overlayFields u (.cons arg T F) w v = v ↔
      (if arg.shadowed deserializeLocals then w.1 = v.1 else overlay u T w.1 v.1 = v.1) ∧
        overlayFields u F w.2 v.2 = v.2 := by
  rw [overlayFields, Prod.ext_iff]
  cases arg.shadowed deserializeLocals with
  | true => exact Iff.rfl
  | false => exact Iff.rfl

/-- A condition on a member, where a hidden member has another one. -/
theorem member_imp (hidden : Bool) {H P Q : Prop} (h : if hidden then H else P) (hPQ : P → Q) :
    if hidden then H else Q := by
  cases hidden with
  | true => exact h
  | false => exact hPQ h

/-- Entries whose keys and values overlay to themselves are inserted as they
    are. -/
theorem insertAll_overlay {κ ν : Type} [LinearOrder κ] (m : SortedMap κ ν) (f : κ → κ) (g : ν → ν)
    (hf : ∀ e ∈ m.entries, f e.1 = e.1) (w : SortedMap κ ν) :
    w.insertAll (m.entries.map fun e => (f e.1, g e.2)) =
      w.insertAll (m.mapValues fun _ => g).entries := by
  have hkeys : ∀ e ∈ m.entries, (f e.1, g e.2) = (e.1, g e.2) := by
    intro e he
    rw [hf e he]
  rw [SortedMap.mapValues, List.map_congr_left hkeys]

mutual
/-- An absorbed target is left with the serialized value. -/
theorem overlay_of_absorbed (u : Uninit) : ∀ {α : Type} (T : Ty α) (w v : α),
    Absorbed u T w v → overlay u T w v = v
  | _, .scalar _, _, _, _ => by rw [overlay]
  | _, .char, _, _, h => by
      unfold overlay
      exact h
  | _, .vector T, w, v, h => by
      have hid : ∀ x ∈ v, overlay u T (T.defaultInit u) x = id x := by
        intro x hx
        exact overlay_of_absorbed u T _ x (h.2 x hx)
      -- The items are all there is, and each is what it was.
      rw [overlay, h.1, List.map_congr_left hid, List.map_id, List.nil_append]
  | _, @Ty.map _ _ _ K V, w, m, h => by
      have hkey : ∀ e ∈ m.entries, overlay u K (K.defaultInit u) e.1 = e.1 := by
        intro e he
        exact overlay_of_absorbed u K _ e.1 (h.2 e he).1
      have hvalue : ∀ e ∈ m.entries, overlay u V (V.defaultInit u) e.2 = e.2 := by
        intro e he
        exact overlay_of_absorbed u V _ e.2 (h.2 e he).2
      -- The new entries are those of the map, and they cover the old keys.
      rw [overlay, insertAll_overlay m _ _ hkey]
      refine (SortedMap.insertAll_eq_iff w _ m (SortedMap.keys_mapValues _ m)).mpr ⟨h.1, ?_⟩
      exact (SortedMap.mapValues_eq_self_iff _ m).mpr hvalue
  | _, .cls F _, w, v, h => by
      unfold overlay
      exact overlayFields_of_absorbed u F w v h
/-- The same for the members of a class. -/
theorem overlayFields_of_absorbed (u : Uninit) : ∀ {σ : Type} (F : Fields σ) (w v : σ),
    AbsorbedFields u F w v → overlayFields u F w v = v
  | _, .nil, _, _, _ => rfl
  | _, .cons arg T F, w, v, h => by
      have hfirst := member_imp _ h.1 (overlay_of_absorbed u T w.1 v.1)
      have hrest := overlayFields_of_absorbed u F w.2 v.2 h.2
      exact (overlayFields_cons_eq_iff u arg T F w v).mpr ⟨hfirst, hrest⟩
end

mutual
/-- An object with empty containers absorbs every value, if no member is
    hidden. -/
theorem absorbed_of_containersEmpty (u : Uninit) : ∀ {α : Type} (T : Ty α), T.Supported →
    T.Unshadowed deserializeLocals → T.ElementsEmpty u → ∀ w v : α, T.ContainersEmpty w →
      Absorbed u T w v
  | _, .scalar _, _, _, _, _, _, _ => trivial
  | _, .vector T, hT, hU, hE, w, v, hw => by
      refine ⟨hw, ?_⟩
      intro x _
      exact absorbed_of_containersEmpty u T hT hU hE.2 _ x hE.1
  | _, @Ty.map _ _ _ K V, hT, hU, hE, w, m, hw => by
      have hempty : w = SortedMap.empty := hw
      constructor
      · -- The target has no keys, and its entries are decoded into empty objects.
        intro k hk
        rw [hempty] at hk
        exact absurd hk List.not_mem_nil
      · intro e _
        have hkey := absorbed_of_containersEmpty u K hT.1 hU.1 hE.1.2 _ e.1 hE.1.1
        have hvalue := absorbed_of_containersEmpty u V hT.2 hU.2 hE.2.2 _ e.2 hE.2.1
        exact ⟨hkey, hvalue⟩
  | _, .cls F _, hT, hU, hE, w, v, hw => absorbedFields_of_containersEmpty u F hT hU hE w v hw
/-- The same for the members of a class. -/
theorem absorbedFields_of_containersEmpty (u : Uninit) : ∀ {σ : Type} (F : Fields σ), F.Supported →
    F.Unshadowed deserializeLocals → F.ElementsEmpty u → ∀ w v : σ, F.ContainersEmpty w →
      AbsorbedFields u F w v
  | _, .nil, _, _, _, _, _, _ => trivial
  | _, .cons arg T F, hF, hU, hE, w, v, hw => by
      have hfirst := absorbed_of_containersEmpty u T hF.1 hU.2.1 hE.1 w.1 v.1 hw.1
      have hrest := absorbedFields_of_containersEmpty u F hF.2 hU.2.2 hE.2 w.2 v.2 hw.2
      unfold AbsorbedFields
      rw [hU.1, if_neg Bool.false_ne_true]
      exact ⟨hfirst, hrest⟩
end

mutual
/-- Only an absorbed target is left with the serialized value. Appending
    lengthens a vector that was not empty, and inserting never removes a
    key. -/
theorem absorbed_of_overlay (u : Uninit) : ∀ {α : Type} (T : Ty α), T.Supported →
    T.KeysFaithful u → ∀ w v : α, overlay u T w v = v → Absorbed u T w v
  | _, .scalar _, _, _, _, _, _ => trivial
  | _, .vector T, hT, hK, w, v, h => by
      rw [overlay] at h
      -- As many items come as there are, so nothing was there before.
      have hlen := congrArg List.length h
      rw [List.length_append, List.length_map] at hlen
      have hzero : w.length = 0 := by omega
      have hw : w = [] := List.length_eq_zero_iff.mp hzero
      rw [hw, List.nil_append] at h
      have hid := List.map_inj_left.mp (h.trans (List.map_id v).symm)
      refine ⟨hw, ?_⟩
      intro x hx
      exact absorbed_of_overlay u T hT hK _ x (hid x hx)
  | _, @Ty.map _ _ _ K V, hT, hK, w, m, h => by
      rcases hK with ⟨⟨hempty, hE, hU⟩, hV⟩
      have hkey : ∀ e ∈ m.entries, overlay u K (K.defaultInit u) e.1 = e.1 := by
        intro e _
        exact overlay_of_containersEmpty u K hT.1 hU hE _ e.1 hempty
      -- Keys are decoded to what they were, so only values can differ.
      rw [overlay, insertAll_overlay m _ _ hkey] at h
      rcases (SortedMap.insertAll_eq_iff w _ m (SortedMap.keys_mapValues _ m)).mp h with
        ⟨hkeys, hvalues⟩
      refine ⟨hkeys, ?_⟩
      intro e he
      have hvalue := (SortedMap.mapValues_eq_self_iff _ m).mp hvalues e he
      exact ⟨absorbed_of_containersEmpty u K hT.1 hU hE _ e.1 hempty,
        absorbed_of_overlay u V hT.2 hV _ e.2 hvalue⟩
  | _, .cls F _, hT, hK, w, v, h => by
      rw [overlay] at h
      exact absorbedFields_of_overlay u F hT hK w v h
/-- The same for the members of a class. -/
theorem absorbedFields_of_overlay (u : Uninit) : ∀ {σ : Type} (F : Fields σ), F.Supported →
    F.KeysFaithful u → ∀ w v : σ, overlayFields u F w v = v → AbsorbedFields u F w v
  | _, .nil, _, _, _, _, _ => trivial
  | _, .cons arg T F, hF, hK, w, v, h => by
      rw [overlayFields_cons_eq_iff] at h
      have hfirst := member_imp _ h.1 (absorbed_of_overlay u T hF.1 hK.1 w.1 v.1)
      exact ⟨hfirst, absorbedFields_of_overlay u F hF.2 hK.2 w.2 v.2 h.2⟩
end

/-! ### Empty targets with hidden members -/

/-- What was inserted into an empty map is in it. -/
theorem mem_of_mem_insertAll_empty {κ ν : Type} [LinearOrder κ] (l : List (κ × ν)) (e : κ × ν)
    (h : e ∈ (SortedMap.empty.insertAll l).entries) : e ∈ l := by
  rw [SortedMap.insertAll_empty] at h
  exact (SortedMap.lastOccurrences_sublist l).subset ((SortedMap.sortLast_perm l).mem_iff.mp h)

mutual
/-- Decoding once more what has been decoded into an empty object changes
    nothing: all there is to lose has been lost. -/
theorem overlay_idem (u : Uninit) : ∀ {α : Type} (T : Ty α), T.Supported → T.ElementsEmpty u →
    ∀ w v : α, T.ContainersEmpty w → overlay u T w (overlay u T w v) = overlay u T w v
  | _, .scalar _, _, _, _, _, _ => rfl
  | _, .vector T, hT, hE, w, v, hw => by
      have hempty : w = [] := hw
      simp only [overlay, hempty, List.nil_append, List.map_map]
      -- Each item has been decoded into an empty object once.
      refine List.map_congr_left ?_
      intro x _
      exact overlay_idem u T hT hE.2 _ x hE.1
  | _, @Ty.map _ _ _ K V, hT, hE, w, m, hw => by
      have hempty : w = SortedMap.empty := hw
      rw [overlay, overlay, hempty, map_entries_eq_self (overlay u K (K.defaultInit u)) _
        (SortedMap.insertAll SortedMap.empty _).entries, SortedMap.insertAll_entries_empty]
      -- The entries come from decoding, so it takes them to themselves.
      intro e he
      rcases List.mem_map.mp (mem_of_mem_insertAll_empty _ e he) with ⟨e', _, rfl⟩
      have hkey := overlay_idem u K hT.1 hE.1.2 _ e'.1 hE.1.1
      have hvalue := overlay_idem u V hT.2 hE.2.2 _ e'.2 hE.2.1
      exact ⟨hkey, hvalue⟩
  | _, .cls F _, hT, hE, w, v, hw => by
      simp only [overlay]
      exact overlayFields_idem u F hT hE w v hw
/-- The same for the members of a class. -/
theorem overlayFields_idem (u : Uninit) : ∀ {σ : Type} (F : Fields σ), F.Supported →
    F.ElementsEmpty u → ∀ w v : σ, F.ContainersEmpty w →
      overlayFields u F w (overlayFields u F w v) = overlayFields u F w v
  | _, .nil, _, _, _, _, _ => rfl
  | _, .cons arg T F, hF, hE, w, v, hw => by
      have hfirst := overlay_idem u T hF.1 hE.1 w.1 v.1 hw.1
      have hrest := overlayFields_idem u F hF.2 hE.2 w.2 v.2 hw.2
      rw [overlayFields_cons_eq_iff]
      refine ⟨?_, hrest⟩
      unfold overlayFields
      -- A hidden member was never changed.
      cases arg.shadowed deserializeLocals with
      | true => exact rfl
      | false => exact hfirst
end

mutual
/-- An empty object is left only with a value that it absorbs, also where keys
    lose something in decoding. -/
theorem absorbed_of_overlay_empty (u : Uninit) : ∀ {α : Type} (T : Ty α), T.Supported →
    T.ElementsEmpty u → ∀ w v : α, T.ContainersEmpty w → overlay u T w v = v → Absorbed u T w v
  | _, .scalar _, _, _, _, _, _, _ => trivial
  | _, .vector T, hT, hE, w, v, hw, h => by
      have hempty : w = [] := hw
      -- Every item is decoded to itself.
      rw [overlay, hempty, List.nil_append] at h
      have hid := List.map_inj_left.mp (h.trans (List.map_id v).symm)
      refine ⟨hempty, ?_⟩
      intro x hx
      exact absorbed_of_overlay_empty u T hT hE.2 _ x hE.1 (hid x hx)
  | _, @Ty.map _ _ _ K V, hT, hE, w, m, hw, h => by
      have hempty : w = SortedMap.empty := hw
      rw [overlay, hempty] at h
      refine ⟨?_, ?_⟩
      · intro k hk
        rw [hempty] at hk
        exact absurd hk List.not_mem_nil
      · intro e he
        rw [← h] at he
        -- Every entry comes from decoding one, and so nothing is left to lose.
        rcases List.mem_map.mp (mem_of_mem_insertAll_empty _ e he) with ⟨e', _, rfl⟩
        have hkey := overlay_idem u K hT.1 hE.1.2 _ e'.1 hE.1.1
        have hvalue := overlay_idem u V hT.2 hE.2.2 _ e'.2 hE.2.1
        exact ⟨absorbed_of_overlay_empty u K hT.1 hE.1.2 _ _ hE.1.1 hkey,
          absorbed_of_overlay_empty u V hT.2 hE.2.2 _ _ hE.2.1 hvalue⟩
  | _, .cls F _, hT, hE, w, v, hw, h => by
      rw [overlay] at h
      exact absorbedFields_of_overlay_empty u F hT hE w v hw h
/-- The same for the members of a class. -/
theorem absorbedFields_of_overlay_empty (u : Uninit) : ∀ {σ : Type} (F : Fields σ), F.Supported →
    F.ElementsEmpty u → ∀ w v : σ, F.ContainersEmpty w → overlayFields u F w v = v →
      AbsorbedFields u F w v
  | _, .nil, _, _, _, _, _, _ => trivial
  | _, .cons arg T F, hF, hE, w, v, hw, h => by
      rw [overlayFields_cons_eq_iff] at h
      have hfirst := member_imp _ h.1 (absorbed_of_overlay_empty u T hF.1 hE.1 w.1 v.1 hw.1)
      exact ⟨hfirst, absorbedFields_of_overlay_empty u F hF.2 hE.2 w.2 v.2 hw.2 h.2⟩
end

end Nanoservices
