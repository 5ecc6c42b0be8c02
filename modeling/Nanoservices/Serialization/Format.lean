import Nanoservices.Serialization.Encoding

/-!
# Well-Formed Records

What it means for a record tree to be in the format, node by node and without
reference to how it was made: the tag of every node belongs to the node's
type, its data is there and of the kind the tag announces, and the children
are as many as they should be, in order and under the right names. A class
has one child per member under the member's name, a list one child per item, a
map a key and a value child per entry with the keys increasing.

`formatted_encode_iff` says when the format is what `encode` writes. It is, but
for the members that a local variable of the generated function hides: such a
member has a null record, which is in the format of no type. With the encoder's
specification this makes every record the encoder emits well formed if no object
in the value has a hidden member, including the records it emits from an object
that has been serialized before (`serializeField_formatted_iff`).

## Main definitions

* `Formatted`, `FormattedFields`: A record tree is in the format.
* `EmitsFormatted`: The encoder returns a tree in the format.

## Theorems

* `fieldNames_encodeFields`: Members are written under their names.
* `formatted_encode_iff`: When the format describes `encode`.
* `serializeField_formatted_iff`: When everything the encoder emits is in the
  format.
-/

namespace Nanoservices

open Interleave

mutual
/-- The tree is the record of the value, whatever the name of the root. -/
def Formatted : {α : Type} → Ty α → α → Record → Prop
  | _, .scalar s, v, r => r.type = s.recordType ∧ r.data = .scalar s v
  | _, .char, _, r => r.type = .nullValue ∧ r.data = .null
  | _, .vector T, v, r => r.type = .list ∧ ∃ rs, r.data = .records rs ∧
      rs.length = v.length ∧ (∀ c ∈ rs, c.fieldName = listItemRecordName) ∧
      List.Forall₂ (Formatted T) v rs
  | _, @Ty.map _ _ _ K V, m, r => r.type = .map ∧ ∃ rs, r.data = .records rs ∧
      rs.length = 2 * m.entries.length ∧
      Alternate (fun c => c.fieldName = mapItemKeyRecordName)
        (fun c => c.fieldName = mapItemValueRecordName) rs ∧
      m.keys.Pairwise (· < ·) ∧
      List.Forall₂ (fun e p => Formatted K e.1 p.1 ∧ Formatted V e.2 p.2) m.entries (pairs rs)
  | _, .cls F _, v, r => r.type = .serializableClass ∧ ∃ rs, r.data = .records rs ∧
      rs.map Record.fieldName = F.args.map (fun a => a.name.chars) ∧ FormattedFields F v rs
/-- The trees are the records of the members, one for one. -/
def FormattedFields : {σ : Type} → Fields σ → σ → List Record → Prop
  | _, .nil, _, rs => rs = []
  | _, .cons _ T F, v, rs => ∃ c cs, rs = c :: cs ∧ Formatted T v.1 c ∧ FormattedFields F v.2 cs
end

/-- Members are written under their declared names, in order. -/
theorem fieldNames_encodeFields : ∀ {σ : Type} (F : Fields σ) (v : σ),
    (encodeFields F v).map Record.fieldName = F.args.map fun a => a.name.chars
  | _, .nil, _ => rfl
  | _, .cons arg T F, v => by
      rw [encodeFields, Fields.args, List.map_cons, List.map_cons,
        memberRecord_fieldName arg _ (encode_fieldName T _ v.1), fieldNames_encodeFields F v.2]

/-- A null record is in the format of no type. -/
theorem not_formatted_null : ∀ {α : Type} (T : Ty α), T.Supported → ∀ (v : α) (n : Str),
    ¬ Formatted T v ⟨.nullValue, n, .null⟩
  | _, .scalar s, _, _, _ => by
      rintro ⟨htype, _⟩
      -- Every type has a tag of its own, and none has the tag of a null record.
      exact absurd htype.symm (recordType_ne_nullValue s)
  | _, .vector _, _, _, _ => by
      rintro ⟨htype, _⟩
      exact RecordType.noConfusion htype
  | _, @Ty.map _ _ _ _ _, _, _, _ => by
      rintro ⟨htype, _⟩
      exact RecordType.noConfusion htype
  | _, .cls _ _, _, _, _ => by
      rintro ⟨htype, _⟩
      exact RecordType.noConfusion htype

/-- The record of a member is in the format if the member is not hidden and its
    own record is. -/
theorem formatted_memberRecord_iff (arg : MacroArg) {α : Type} (T : Ty α) (hT : T.Supported)
    (v : α) (r : Record) :
    Formatted T v (memberRecord arg r) ↔
      arg.shadowed serializeLocals = false ∧ Formatted T v r := by
  cases h : arg.shadowed serializeLocals with
  | false =>
      rw [memberRecord_eq arg h]
      exact (and_iff_right rfl).symm
  | true =>
      rw [memberRecord_shadowed arg h]
      refine iff_of_false (not_formatted_null T hT v _) ?_
      intro hfalse
      exact Bool.noConfusion hfalse.1

mutual
/-- What `encode` writes is in the format exactly if no member of an object in
    the value is hidden. -/
theorem formatted_encode_iff : ∀ {α : Type} (T : Ty α), T.Supported → ∀ (n : Str) (v : α),
    Formatted T v (encode T n v) ↔ T.UnshadowedIn serializeLocals v
  | _, .scalar _, _, _, _ => iff_of_true ⟨rfl, rfl⟩ trivial
  | _, .vector T, hT, n, v => by
      constructor
      · rintro ⟨_, rs, hrs, _, _, hitems⟩
        -- The records are those of the items, one for each.
        rw [← Data.records.inj hrs, List.forall₂_map_right_iff, List.forall₂_same] at hitems
        intro x hx
        exact (formatted_encode_iff T hT _ x).mp (hitems x hx)
      · intro h
        -- Tag and number of records are right in any case.
        refine ⟨rfl, _, rfl, List.length_map _, ?_, ?_⟩
        · intro c hc
          rcases List.mem_map.mp hc with ⟨x, _, rfl⟩
          exact encode_fieldName T _ x
        · rw [List.forall₂_map_right_iff, List.forall₂_same]
          intro x hx
          exact (formatted_encode_iff T hT _ x).mpr (h x hx)
  | _, @Ty.map _ _ _ K V, hT, n, m => by
      constructor
      · rintro ⟨_, rs, hrs, _, _, _, hentries⟩
        -- The records of a map, taken in pairs, are those of its entries.
        rw [← Data.records.inj hrs, pairs_interleave, List.forall₂_map_right_iff,
          List.forall₂_same] at hentries
        intro e he
        have hkey := (formatted_encode_iff K hT.1 _ e.1).mp (hentries e he).1
        have hvalue := (formatted_encode_iff V hT.2 _ e.2).mp (hentries e he).2
        exact ⟨hkey, hvalue⟩
      · intro h
        refine ⟨rfl, _, rfl, ?_, ?_, ?_, ?_⟩
        · rw [length_interleave, List.length_map]
        · rw [alternate_interleave]
          intro p hp
          rcases List.mem_map.mp hp with ⟨e, _, rfl⟩
          exact ⟨encode_fieldName K _ e.1, encode_fieldName V _ e.2⟩
        · -- The entries of a map are in key order.
          exact List.pairwise_map.mpr m.sorted
        · rw [pairs_interleave, List.forall₂_map_right_iff, List.forall₂_same]
          intro e he
          have hkey := (formatted_encode_iff K hT.1 mapItemKeyRecordName e.1).mpr (h e he).1
          have hvalue := (formatted_encode_iff V hT.2 mapItemValueRecordName e.2).mpr (h e he).2
          exact ⟨hkey, hvalue⟩
  | _, .cls F _, hT, n, v => by
      -- The names of the members are right in any case, also of a hidden one.
      rw [encode, Formatted, Ty.UnshadowedIn, ← formattedFields_encode_iff F hT v]
      constructor
      · rintro ⟨_, rs, hrs, _, hmembers⟩
        rw [Data.records.inj hrs]
        exact hmembers
      · intro hmembers
        exact ⟨rfl, _, rfl, fieldNames_encodeFields F v, hmembers⟩
/-- The same for the members of a class: each of them has to be recorded as what
    it is, and what it holds as well. -/
theorem formattedFields_encode_iff : ∀ {σ : Type} (F : Fields σ), F.Supported → ∀ v : σ,
    FormattedFields F v (encodeFields F v) ↔ F.UnshadowedIn serializeLocals v
  | _, .nil, _, _ => iff_of_true rfl trivial
  | _, .cons arg T F, hF, v => by
      rw [encodeFields, Fields.UnshadowedIn, ← formatted_encode_iff T hF.1 arg.name.chars v.1,
        ← formattedFields_encode_iff F hF.2 v.2, ← and_assoc,
        ← formatted_memberRecord_iff arg T hF.1]
      simp only [FormattedFields, List.cons.injEq, and_assoc, exists_and_left, exists_eq_left']
end

/-- Serializing the value returns a tree in the format, named as it was asked
    to be, and leaves names cached that the next call can use. -/
def EmitsFormatted {α : Type} (T : Ty α) (n : Str) (v : α) (cache : NameCache) : Prop :=
  ∃ r cache', serializeField T n v cache = .ok (r, cache') ∧ r.fieldName = n ∧
    Formatted T v r ∧ T.CacheOk cache'

/-- Of an encoding, with any consistent cache: the tree is in the format exactly
    if no member of an object in the value is hidden from the encoder. -/
theorem emitsFormatted_iff {α : Type} (T : Ty α) (hT : T.Supported) (n : Str) (v : α)
    (cache : NameCache) (hcache : T.CacheOk cache) :
    EmitsFormatted T n v cache ↔ T.UnshadowedIn serializeLocals v := by
  rcases serializeField_eq T hT n v cache hcache with ⟨cache', hrun, hok⟩
  rw [← formatted_encode_iff T hT n v]
  constructor
  · rintro ⟨r, cache'', hrun', _, hr, _⟩
    rw [hrun, Except.ok.injEq, Prod.mk.injEq] at hrun'
    rw [hrun'.1]
    exact hr
  · intro h
    exact ⟨_, cache', hrun, encode_fieldName T n v, h, hok⟩

/-- What the encoder emits is in the format exactly if no object in the value
    has a hidden member. The names of the members may be cached or not: nothing
    is cached in a fresh object, and a call leaves valid names cached. All
    values of a type are serialized in the format exactly if no class inside the
    type has such a member. -/
theorem serializeField_formatted_iff {α : Type} (T : Ty α) (hT : T.Supported) :
    T.CacheOk .fresh ∧
    (∀ (n : Str) (v : α) (cache : NameCache), T.CacheOk cache →
      (EmitsFormatted T n v cache ↔ T.UnshadowedIn serializeLocals v)) ∧
    ((∀ v : α, T.UnshadowedIn serializeLocals v) ↔ T.Unshadowed serializeLocals) :=
  ⟨cacheOk_fresh T, emitsFormatted_iff T hT, forall_unshadowedIn_iff .zeroed serializeLocals T⟩

/-- The test's object is well formed when it is serialized for the first
    time. -/
theorem serializeField_formatted_iff_outer1 :
    EmitsFormatted myOuterClass (str "outer") outer1 .fresh := by
  have hnames := ((unshadowed_generatedLocals _).mp myOuterClass_unshadowed).1
  have hformat := serializeField_formatted_iff myOuterClass myOuterClass_supported
  exact (hformat.2.1 (str "outer") outer1 .fresh hformat.1).mpr (hformat.2.2.mpr hnames outer1)

/-- A member that is called `result` has a null record. -/
theorem not_emitsFormatted_result :
    ¬ ∀ {α : Type} (T : Ty α), T.Supported → ∀ (n : Str) (v : α) (cache : NameCache),
      T.CacheOk cache → EmitsFormatted T n v cache := by
  intro h
  have hemits := h resultClass ⟨trivial, trivial⟩ [] (5, ()) .fresh (cacheOk_fresh _)
  rw [emitsFormatted_iff resultClass ⟨trivial, trivial⟩ _ _ _ (cacheOk_fresh _)] at hemits
  exact absurd hemits.1 (by decide)

end Nanoservices
