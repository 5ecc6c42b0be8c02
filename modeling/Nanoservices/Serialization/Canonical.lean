import Nanoservices.Serialization.Overlay
import Nanoservices.Serialization.Safety

/-!
# Canonical Records

Which trees decode to the same value. A tree that matches the type may name
its records differently from the encoder, and may list the entries of a map in
any order and a key several times; two keys are the same when they decode to
the same value, whatever their records look like. `canon` removes that freedom
node by node: it puts the encoder's names, keeps the last occurrence of every
key and sorts by key.

Decoding a tree into a fresh object and encoding the result gives `canon` of
the tree, if no class inside the type has a member that a variable of the
generated functions hides. The step that carries this is at a map, where the loop of
`operator[]` assignments leaves exactly the sorted last occurrences
(`SortedMap.insertAll_empty`), and sorting commutes with encoding the entries
(`SortedMap.sortLast_map`). Everything else about `canon` follows: it is
idempotent because the encoder's own trees decode to what was encoded, and it
leaves a tree alone exactly if the tree is `Canonical`.

## Main definitions

* `decoded`: What a record decodes to.
* `canon`, `canonFields`: The canonical tree.
* `Canonical`, `CanonicalFields`: The encoder's names and increasing keys.
* `Canonicalised`: Decoding and encoding again is `canon`.

## Theorems

* `deserializeField_canon`: What is decoded encodes to the canonical tree.
* `shaped_encode`, `canonical_encode`: The encoder's trees are canonical.
* `canon_of_canonical`: A canonical tree is left alone.
* `canonicalised_of_unshadowed`: Decoding and encoding again is `canon`, without
  hidden members.
-/

namespace Nanoservices

open Interleave

/-- What a freshly declared object holds after the record was decoded into it,
    whether the call has returned or not. -/
def decoded (u : Uninit) {α : Type} (T : Ty α) (r : Record) : α :=
  match deserializeField u T (T.defaultInit u) r with
  | .ok v => v
  | .error (_, v) => v

mutual
/-- The canonical tree: the encoder's names, and in every map the last
    occurrence of each key, by increasing key. -/
def canon (u : Uninit) : {α : Type} → Ty α → Record → Record
  | _, .scalar _, r => r
  | _, .char, r => r
  | _, .vector T, r => r.mapRecords fun rs => rs.map fun c => (canon u T c).named listItemRecordName
  | _, @Ty.map _ _ _ K V, r => r.mapRecords fun rs =>
    interleave ((SortedMap.sortLast ((pairs rs).map fun p => (decoded u K p.1,
      (canon u K p.1).named mapItemKeyRecordName,
      (canon u V p.2).named mapItemValueRecordName))).map Prod.snd)
  | _, .cls F _, r => r.mapRecords (canonFields u F)
/-- The same for the members of a class, each under its declared name. -/
def canonFields (u : Uninit) : {σ : Type} → Fields σ → List Record → List Record
  | _, .nil, _ => []
  | _, .cons _ _ _, [] => []
  | _, .cons arg T F, c :: cs => (canon u T c).named arg.name.chars :: canonFields u F cs
end

mutual
/-- The children have the encoder's names, and the keys of every map
    increase. -/
def Canonical (u : Uninit) : {α : Type} → Ty α → Record → Prop
  | _, .scalar _, _ => True
  | _, .char, _ => True
  | _, .vector T, r => ∀ rs, r.data = .records rs →
      ∀ c ∈ rs, c.fieldName = listItemRecordName ∧ Canonical u T c
  | _, @Ty.map _ _ _ K V, r => ∀ rs, r.data = .records rs →
      (∀ p ∈ pairs rs, (p.1.fieldName = mapItemKeyRecordName ∧ Canonical u K p.1) ∧
        p.2.fieldName = mapItemValueRecordName ∧ Canonical u V p.2) ∧
      ((pairs rs).map fun p => decoded u K p.1).Pairwise (· < ·)
  | _, .cls F _, r => ∀ rs, r.data = .records rs → CanonicalFields u F rs
/-- The same for the members of a class, each under its declared name. -/
def CanonicalFields (u : Uninit) : {σ : Type} → Fields σ → List Record → Prop
  | _, .nil, _ => True
  | _, .cons arg T F, rs => ∀ c cs, rs = c :: cs →
      (c.fieldName = arg.name.chars ∧ Canonical u T c) ∧ CanonicalFields u F cs
end

/-- The root keeps its name; only those of the children are the encoder's. -/
theorem canon_fieldName (u : Uninit) {α : Type} (T : Ty α) (r : Record) :
    (canon u T r).fieldName = r.fieldName := by
  -- Children are changed in place, and the root is not.
  cases T with
  | scalar s => rfl
  | char => rfl
  | vector T => exact Record.mapRecords_fieldName _ r
  | map K V => exact Record.mapRecords_fieldName _ r
  | cls F ctor => exact Record.mapRecords_fieldName _ r

/-- A map node that is not truncated has an even number of children, so they are
    the layout of pairs. -/
theorem even_of_whole (r : Record) (rs : List Record) (hrs : r.data = .records rs)
    (htype : r.type = .map) (hwhole : ¬ r.Somewhere Record.TruncatedMap) : Even rs.length := by
  by_contra hodd
  exact hwhole (.here r ((truncatedMap_iff r rs hrs).mpr ⟨htype, hodd⟩))

/-! ### Decoding and encoding again -/

/-- A record that decodes decodes to `decoded`. -/
theorem decoded_of_exists (u : Uninit) {α : Type} (T : Ty α) (r : Record) (P : α → Prop)
    (h : ∃ v, deserializeField u T (T.defaultInit u) r = .ok v ∧ P v) :
    deserializeField u T (T.defaultInit u) r = .ok (decoded u T r) ∧ P (decoded u T r) := by
  rcases h with ⟨v, hv, hP⟩
  have hd : decoded u T r = v := by
    unfold decoded
    rw [hv]
  rw [hd]
  exact ⟨hv, hP⟩

/-- Encoding an entry is a function of it, so it can be done before sorting. -/
theorem canon_entries (u : Uninit) {κ ν : Type} (K : Ty κ) (V : Ty ν) (ps : List (Record × Record))
    (hkey : ∀ p ∈ ps, ∀ n, encode K n (decoded u K p.1) = (canon u K p.1).named n)
    (hvalue : ∀ p ∈ ps, ∀ n, encode V n (decoded u V p.2) = (canon u V p.2).named n) :
    ps.map (fun p => (decoded u K p.1, (canon u K p.1).named mapItemKeyRecordName,
        (canon u V p.2).named mapItemValueRecordName)) =
      (ps.map fun p => (decoded u K p.1, decoded u V p.2)).map fun e =>
        (e.1, encode K mapItemKeyRecordName e.1, encode V mapItemValueRecordName e.2) := by
  rw [List.map_map]
  refine List.map_congr_left ?_
  intro p hp
  simp only [Function.comp_apply, hkey p hp, hvalue p hp]

mutual
/-- A tree that matches the type decodes into a fresh object, and what is
    decoded encodes to the canonical tree, if no member is hidden. -/
theorem deserializeField_canon (u : Uninit) : ∀ {α : Type} (T : Ty α), T.Supported →
    T.Unshadowed generatedLocals → T.ElementsEmpty u → ∀ (w : α) (r : Record),
      T.ContainersEmpty w → Shaped T r → ¬ r.Somewhere Record.TruncatedMap →
        ∃ v, deserializeField u T w r = .ok v ∧ ∀ n, encode T n v = (canon u T r).named n
  | _, .scalar s, _, _, _, w, r, _, h, _ => by
      rcases h with ⟨htype, x, hx⟩
      refine ⟨x, ?_, ?_⟩
      · rw [deserializeField, hx, readScalar_scalar]
      · intro n
        rw [encode, canon, Record.named, htype, hx]
  | _, .vector T, hT, hU, hE, w, r, hw, h, hwhole => by
      rcases h with ⟨htype, rs, hrs, h⟩
      have hempty : w = [] := hw
      -- Every item decodes into a fresh object, and encodes canonically.
      have hitem : ∀ c ∈ rs, deserializeField u T (T.defaultInit u) c = .ok (decoded u T c) ∧
          ∀ n, encode T n (decoded u T c) = (canon u T c).named n := by
        intro c hc
        have hbelow := Record.not_somewhere_child r hwhole rs hrs c hc
        exact decoded_of_exists u T c _
          (deserializeField_canon u T hT hU hE.2 _ c hE.1 (h c hc) hbelow)
      refine ⟨rs.map (decoded u T), ?_, ?_⟩
      · have hloop := deserializeListLoop_map (T.defaultInit u) (deserializeField u T) id
          (decoded u T) rs (fun c hc => (hitem c hc).1) w
        rw [List.map_id, hempty, List.nil_append] at hloop
        rw [deserializeField, deserializeListField, hrs, readRecords_records, hempty]
        exact hloop
      · intro n
        rw [encode, canon, Record.mapRecords_of_records _ r rs hrs, Record.named, htype,
          List.map_map, Function.comp_def,
          List.map_congr_left fun c hc => (hitem c hc).2 listItemRecordName]
  | _, @Ty.map _ _ _ K V, hT, hU, hE, w, r, hw, h, hwhole => by
      rcases h with ⟨htype, rs, hrs, h⟩
      have hempty : w = SortedMap.empty := hw
      have hbelow := Record.not_somewhere_child r hwhole rs hrs
      have heven := even_of_whole r rs hrs htype hwhole
      -- So do the keys, which decide about the order, and the values.
      have hkey : ∀ p ∈ pairs rs, deserializeField u K (K.defaultInit u) p.1 =
          .ok (decoded u K p.1) ∧ ∀ n, encode K n (decoded u K p.1) = (canon u K p.1).named n := by
        intro p hp
        have hshaped := (alternate_mem_pairs _ _ rs h p hp).1
        have hp' := hbelow p.1 (mem_of_mem_pairs rs p hp).1
        exact decoded_of_exists u K p.1 _
          (deserializeField_canon u K hT.1 hU.1 hE.1.2 _ p.1 hE.1.1 hshaped hp')
      have hvalue : ∀ p ∈ pairs rs, deserializeField u V (V.defaultInit u) p.2 =
          .ok (decoded u V p.2) ∧ ∀ n, encode V n (decoded u V p.2) = (canon u V p.2).named n := by
        intro p hp
        have hshaped := (alternate_mem_pairs _ _ rs h p hp).2
        have hp' := hbelow p.2 (mem_of_mem_pairs rs p hp).2
        exact decoded_of_exists u V p.2 _
          (deserializeField_canon u V hT.2 hU.2 hE.2.2 _ p.2 hE.2.1 hshaped hp')
      refine ⟨.ofList ((pairs rs).map fun p => (decoded u K p.1, decoded u V p.2)), ?_, ?_⟩
      · -- The loop inserts the decoded pairs one by one.
        have hloop := deserializeMapLoop_interleave r.fieldName (K.defaultInit u) (V.defaultInit u)
          (deserializeField u K) (deserializeField u V) Prod.fst Prod.snd (fun p => decoded u K p.1)
          (fun p => decoded u V p.2) (pairs rs) (fun p hp => (hkey p hp).1)
          (fun p hp => (hvalue p hp).1) w
        rw [List.map_id', interleave_pairs rs heven, hempty, SortedMap.insertAll_empty] at hloop
        rw [deserializeField, deserializeMapField, hrs, readRecords_records, hempty]
        exact hloop
      · intro n
        -- Sorting the encoded entries is encoding the sorted ones.
        have hentries := canon_entries u K V (pairs rs) (fun p hp => (hkey p hp).2)
          fun p hp => (hvalue p hp).2
        rw [encode, canon, Record.mapRecords_of_records _ r rs hrs, Record.named, htype, hentries,
          SortedMap.sortLast_map, List.map_map, SortedMap.ofList]
        rfl
  | _, .cls F _, hT, hU, hE, w, r, hw, h, hwhole => by
      rcases h with ⟨htype, rs, hrs, h⟩
      rcases deserializeClauses_canon u F hT hU hE w rs hw h
        (Record.not_somewhere_child r hwhole rs hrs) with ⟨v, hv, henc⟩
      refine ⟨v, ?_, ?_⟩
      · rw [deserializeField, hrs, readRecords_records]
        exact hv
      · intro n
        rw [encode, canon, Record.mapRecords_of_records _ r rs hrs, Record.named, htype, henc]
/-- The same for the members of a class. -/
theorem deserializeClauses_canon (u : Uninit) : ∀ {σ : Type} (F : Fields σ), F.Supported →
    F.Unshadowed generatedLocals → F.ElementsEmpty u → ∀ (w : σ) (rs : List Record),
      F.ContainersEmpty w → ShapedFields F rs → (∀ c ∈ rs, ¬ c.Somewhere Record.TruncatedMap) →
        ∃ v, deserializeClauses u F w rs = .ok v ∧ encodeFields F v = canonFields u F rs
  | _, .nil, _, _, _, w, _, _, _, _ => ⟨w, rfl, rfl⟩
  | _, .cons arg T F, hF, hU, hE, w, rs, hw, h, hwhole => by
      rcases h with ⟨c, cs, rfl, hc, hcs⟩
      rcases (shadowed_generatedLocals arg).mp hU.1 with ⟨hs, hd⟩
      rw [List.forall_mem_cons] at hwhole
      rcases deserializeField_canon u T hF.1 hU.2.1 hE.1 w.1 c hw.1 hc hwhole.1 with
        ⟨x, hx, hencx⟩
      rcases deserializeClauses_canon u F hF.2 hU.2.2 hE.2 w.2 cs hw.2 hcs hwhole.2 with
        ⟨xs, hxs, hencxs⟩
      -- The member is hidden neither from the decoder nor from the encoder.
      refine ⟨(x, xs), ?_, ?_⟩
      · simp only [deserializeClauses, deserializeFieldclause_eq arg hd, hx, hxs]
      · rw [encodeFields, memberRecord_eq arg hs, canonFields, hencx, hencxs]
end

/-! ### The encoder's trees -/

mutual
/-- The record of a value matches the type. -/
theorem shaped_encode : ∀ {α : Type} (T : Ty α), T.Unshadowed serializeLocals →
    ∀ (n : Str) (v : α), Shaped T (encode T n v)
  | _, .scalar _, _, _, v => ⟨rfl, v, rfl⟩
  | _, .char, _, _, _ => ⟨rfl, rfl⟩
  | _, .vector T, hU, _, v => by
      refine ⟨rfl, _, rfl, ?_⟩
      intro c hc
      rcases List.mem_map.mp hc with ⟨x, _, rfl⟩
      exact shaped_encode T hU _ x
  | _, @Ty.map _ _ _ K V, hU, _, m => by
      refine ⟨rfl, _, rfl, (alternate_interleave _ _ _).mpr ?_⟩
      intro p hp
      rcases List.mem_map.mp hp with ⟨e, _, rfl⟩
      exact ⟨shaped_encode K hU.1 _ e.1, shaped_encode V hU.2 _ e.2⟩
  | _, .cls F _, hU, _, v => ⟨rfl, _, rfl, shapedFields_encode F hU v⟩
/-- The same for the members of a class, one record for each. -/
theorem shapedFields_encode : ∀ {σ : Type} (F : Fields σ), F.Unshadowed serializeLocals →
    ∀ v : σ, ShapedFields F (encodeFields F v)
  | _, .nil, _, _ => rfl
  | _, .cons arg T F, hU, v => by
      rw [encodeFields, memberRecord_eq arg hU.1]
      exact ⟨_, _, rfl, shaped_encode T hU.2.1 _ v.1, shapedFields_encode F hU.2.2 v.2⟩
end

/-- The record of a value has no truncated map: it decodes. -/
theorem whole_encode (u : Uninit) {α : Type} (T : Ty α) (hT : T.Supported)
    (hU : T.Unshadowed generatedLocals) (n : Str) (v : α) :
    ¬ (encode T n v).Somewhere Record.TruncatedMap := by
  rcases (unshadowed_generatedLocals T).mp hU with ⟨hs, hd⟩
  have hshaped := shaped_encode T hs n v
  rw [← everyVisited_iff_of_unshadowed _ T hT hd _ hshaped, ← readable_iff_of_shaped T hT _ hshaped,
    ← returns_iff u T hT v]
  exact ⟨_, deserializeField_encode u T n v v (arrives_of_unshadowed T hs v)⟩

/-- The record of a value decodes to the value. -/
theorem decoded_encode (u : Uninit) {α : Type} (T : Ty α) (hT : T.Supported)
    (hU : T.Unshadowed generatedLocals) (hE : T.ElementsEmpty u)
    (hd : T.ContainersEmpty (T.defaultInit u)) (n : Str) (v : α) :
    decoded u T (encode T n v) = v := by
  rcases (unshadowed_generatedLocals T).mp hU with ⟨hs, hdecoded⟩
  rw [decoded, deserializeField_encode u T n _ v (arrives_of_unshadowed T hs v),
    overlay_of_containersEmpty u T hT hdecoded hE _ v hd]

mutual
/-- The record of a value has the encoder's names and increasing keys. -/
theorem canonical_encode (u : Uninit) : ∀ {α : Type} (T : Ty α), T.Supported →
    T.Unshadowed generatedLocals → T.ElementsEmpty u → ∀ (n : Str) (v : α),
      Canonical u T (encode T n v)
  | _, .scalar _, _, _, _, _, _ => trivial
  | _, .vector T, hT, hU, hE, n, v => by
      intro rs hrs c hc
      rw [← Data.records.inj hrs] at hc
      rcases List.mem_map.mp hc with ⟨x, _, rfl⟩
      exact ⟨encode_fieldName T _ x, canonical_encode u T hT hU hE.2 _ x⟩
  | _, @Ty.map _ _ _ K V, hT, hU, hE, n, m => by
      intro rs hrs
      rw [← Data.records.inj hrs, pairs_interleave]
      constructor
      · -- The children are laid out with the encoder's names.
        intro p hp
        rcases List.mem_map.mp hp with ⟨e, _, rfl⟩
        exact ⟨⟨encode_fieldName K _ e.1, canonical_encode u K hT.1 hU.1 hE.1.2 _ e.1⟩,
          encode_fieldName V _ e.2, canonical_encode u V hT.2 hU.2 hE.2.2 _ e.2⟩
      · -- The keys decode to the keys of the map.
        simp only [List.map_map, Function.comp_def, decoded_encode u K hT.1 hU.1 hE.1.2 hE.1.1]
        exact List.pairwise_map.mpr m.sorted
  | _, .cls F _, hT, hU, hE, n, v => by
      intro rs hrs
      rw [← Data.records.inj hrs]
      exact canonicalFields_encode u F hT hU hE v
/-- The same for the members of a class. -/
theorem canonicalFields_encode (u : Uninit) : ∀ {σ : Type} (F : Fields σ), F.Supported →
    F.Unshadowed generatedLocals → F.ElementsEmpty u → ∀ v : σ,
      CanonicalFields u F (encodeFields F v)
  | _, .nil, _, _, _, _ => trivial
  | _, .cons arg T F, hF, hU, hE, v => by
      intro c cs hcs
      rw [encodeFields, memberRecord_eq arg ((shadowed_generatedLocals arg).mp hU.1).1] at hcs
      rcases List.cons.inj hcs with ⟨rfl, rfl⟩
      exact ⟨⟨encode_fieldName T _ v.1, canonical_encode u T hF.1 hU.2.1 hE.1 _ v.1⟩,
        canonicalFields_encode u F hF.2 hU.2.2 hE.2 v.2⟩
end

/-! ### Canonical trees -/

/-- Giving a record the name it has changes nothing. -/
theorem named_eq_self (r r' : Record) (n : Str) (h : r' = r) (hn : r.fieldName = n) :
    r'.named n = r := by
  rw [h, ← hn, Record.named_self]

mutual
/-- A canonical tree is left alone. -/
theorem canon_of_canonical (u : Uninit) : ∀ {α : Type} (T : Ty α) (r : Record), Shaped T r →
    ¬ r.Somewhere Record.TruncatedMap → Canonical u T r → canon u T r = r
  | _, .scalar _, _, _, _, _ => rfl
  | _, .char, _, _, _, _ => rfl
  | _, .vector T, r, h, hwhole, hc => by
      rcases h with ⟨_, rs, hrs, h⟩
      -- So are the items, each under its name.
      have hitem : ∀ c ∈ rs, (canon u T c).named listItemRecordName = id c := by
        intro c hmem
        rcases hc rs hrs c hmem with ⟨hname, hcanonical⟩
        have hbelow := Record.not_somewhere_child r hwhole rs hrs c hmem
        have hc' := canon_of_canonical u T c (h c hmem) hbelow hcanonical
        exact named_eq_self c _ _ hc' hname
      unfold canon
      refine Record.mapRecords_eq_self _ r rs hrs ?_
      rw [List.map_congr_left hitem, List.map_id]
  | _, @Ty.map _ _ _ K V, r, h, hwhole, hc => by
      rcases h with ⟨htype, rs, hrs, h⟩
      have hbelow := Record.not_somewhere_child r hwhole rs hrs
      have heven := even_of_whole r rs hrs htype hwhole
      -- Key and value are canonical and have their names, so they stay.
      have hpair : ∀ p ∈ pairs rs, (decoded u K p.1, (canon u K p.1).named mapItemKeyRecordName,
          (canon u V p.2).named mapItemValueRecordName) = (decoded u K p.1, p) := by
        intro p hp
        rcases (hc rs hrs).1 p hp with ⟨⟨hkname, hk⟩, hvname, hv⟩
        rcases alternate_mem_pairs _ _ rs h p hp with ⟨hkshaped, hvshaped⟩
        rcases mem_of_mem_pairs rs p hp with ⟨hkmem, hvmem⟩
        have hkey := canon_of_canonical u K p.1 hkshaped (hbelow p.1 hkmem) hk
        have hvalue := canon_of_canonical u V p.2 hvshaped (hbelow p.2 hvmem) hv
        rw [named_eq_self p.1 _ _ hkey hkname, named_eq_self p.2 _ _ hvalue hvname]
      have hsorted := List.pairwise_map.mp (hc rs hrs).2
      -- The keys increase already, so sorting does nothing.
      unfold canon
      refine Record.mapRecords_eq_self _ r rs hrs ?_
      rw [List.map_congr_left hpair,
        SortedMap.sortLast_of_sorted _ (List.pairwise_map.mpr hsorted), List.map_map]
      simp only [Function.comp_def, List.map_id', interleave_pairs rs heven]
  | _, .cls F _, r, h, hwhole, hc => by
      rcases h with ⟨_, rs, hrs, h⟩
      unfold canon
      exact Record.mapRecords_eq_self _ r rs hrs (canonFields_of_canonical u F rs h
        (Record.not_somewhere_child r hwhole rs hrs) (hc rs hrs))
/-- The same for the members of a class. -/
theorem canonFields_of_canonical (u : Uninit) : ∀ {σ : Type} (F : Fields σ) (rs : List Record),
    ShapedFields F rs → (∀ c ∈ rs, ¬ c.Somewhere Record.TruncatedMap) →
      CanonicalFields u F rs → canonFields u F rs = rs
  | _, .nil, rs, h, _, _ => (show rs = [] from h).symm
  | _, .cons arg T F, rs, h, hwhole, hcanon => by
      rcases h with ⟨c, cs, rfl, hc, hcs⟩
      rw [List.forall_mem_cons] at hwhole
      rcases hcanon c cs rfl with ⟨⟨hname, hcanonc⟩, hcanoncs⟩
      rw [canonFields, canonFields_of_canonical u F cs hcs hwhole.2 hcanoncs,
        named_eq_self c _ _ (canon_of_canonical u T c hc hwhole.1 hcanonc) hname]
end

/-- Decoding the tree into `w` succeeds, and encoding the result under the tree's
    own name gives the canonical tree. So `canon` is idempotent on it, and the
    tree itself comes back exactly if it has the encoder's names and increasing
    keys. -/
def Canonicalised (u : Uninit) {α : Type} (T : Ty α) (w : α) (r : Record) : Prop :=
  (∃ v, deserializeField u T w r = .ok v ∧ ∀ cache, T.CacheOk cache →
    ∃ cache', serializeField T r.fieldName v cache = .ok (canon u T r, cache')) ∧
  canon u T (canon u T r) = canon u T r ∧
  (canon u T r = r ↔ Canonical u T r)

/-- A tree that matches a type without hidden members is canonicalised by
    decoding it into a fresh object and encoding the result. -/
theorem canonicalised_of_unshadowed (u : Uninit) {α : Type} (T : Ty α) (hT : T.Supported)
    (hU : T.Unshadowed generatedLocals) (hE : T.ElementsEmpty u) (w : α) (hw : T.ContainersEmpty w)
    (r : Record) (hr : Shaped T r) (hwhole : ¬ r.Somewhere Record.TruncatedMap) :
    Canonicalised u T w r := by
  rcases deserializeField_canon u T hT hU hE w r hw hr hwhole with ⟨v, hv, henc⟩
  -- What is decoded encodes to the canonical tree, so this is a tree of the encoder.
  have hcanon : encode T r.fieldName v = canon u T r := by
    rw [henc, named_eq_self _ _ _ rfl (canon_fieldName u T r)]
  have hcanonical : Canonical u T (canon u T r) := by
    rw [← hcanon]
    exact canonical_encode u T hT hU hE _ v
  refine ⟨⟨v, hv, ?_⟩, ?_, ?_⟩
  · intro cache hcache
    rcases serializeField_eq T hT r.fieldName v cache hcache with ⟨cache', hser, _⟩
    rw [hcanon] at hser
    exact ⟨cache', hser⟩
  · -- The canonical tree is one that the encoder wrote.
    rw [← hcanon] at hcanonical ⊢
    exact canon_of_canonical u T _ (shaped_encode T ((unshadowed_generatedLocals T).mp hU).1 _ v)
      (whole_encode u T hT hU _ v) hcanonical
  · -- A tree that comes back has the encoder's names and order, and one that has them
    -- comes back.
    constructor
    · intro h
      rw [← h]
      exact hcanonical
    · exact canon_of_canonical u T r hr hwhole

/-- A map that lists a key twice, out of order and without names. -/
def shuffledMap : Record :=
  ⟨.map, str "m", .records
    [⟨.signedInt32, [], .scalar .int32 2⟩, ⟨.string, [], .scalar .string (str "b")⟩,
     ⟨.signedInt32, [], .scalar .int32 1⟩, ⟨.string, [], .scalar .string (str "a")⟩,
     ⟨.signedInt32, [], .scalar .int32 2⟩, ⟨.string, [], .scalar .string (str "c")⟩]⟩

example : canon .zeroed mapFieldTy shuffledMap =
    ⟨.map, str "m", .records
      [⟨.signedInt32, mapItemKeyRecordName, .scalar .int32 1⟩,
       ⟨.string, mapItemValueRecordName, .scalar .string (str "a")⟩,
       ⟨.signedInt32, mapItemKeyRecordName, .scalar .int32 2⟩,
       ⟨.string, mapItemValueRecordName, .scalar .string (str "c")⟩]⟩ := by rfl

end Nanoservices
