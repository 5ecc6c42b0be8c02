import Nanoservices.Serialization.Overlay

/-!
# Decoding One Record After Another

A decoder does not clear its target, so an object into which several records
are decoded collects them. What it collects is a merge: `overlay` is
associative, and a sequence of records does to an object what one record of the
merged value does, wherever the sequence is cut.

A record that arrives twice is one case of this. Scalars and map entries are
written again and do not change, but items are appended again, so the second
arrival is harmless exactly if the vectors of the value are empty.

## Main definitions

* `deserializeAll`: Decoding records one after another into one object.
* `Ty.VectorsEmpty`: No vector reached through class members holds anything.

## Theorems

* `overlay_assoc`: Merging is associative.
* `deserializeAll_merged`: A sequence of records is one record.
* `replay_iff`: When a record may arrive twice.
-/

namespace Nanoservices

/-- Decode records one after another into one object. -/
def deserializeAll (u : Uninit) {α : Type} (T : Ty α) : α → List Record → Decoded α
  | target, [] => .ok target
  | target, r :: rs => match deserializeField u T target r with
    | .error e => .error e
    | .ok target' => deserializeAll u T target' rs

/-! ### Merging -/

/-- Where items start empty, a vector is appended as it is. -/
theorem overlay_vector (u : Uninit) {α : Type} (T : Ty α) (hT : T.Supported)
    (hU : T.Unshadowed deserializeLocals) (hE : (Ty.vector T).ElementsEmpty u) (w v : List α) :
    overlay u (.vector T) w v = w ++ v := by
  have hid : ∀ x ∈ v, overlay u T (T.defaultInit u) x = id x := by
    intro x _
    exact overlay_of_containersEmpty u T hT hU hE.2 _ x hE.1
  rw [overlay, List.map_congr_left hid, List.map_id]

/-- Where keys and values start empty, a map's entries are inserted as they
    are. -/
theorem overlay_map (u : Uninit) {κ ν : Type} [LinearOrder κ] (K : Ty κ) (V : Ty ν)
    (hT : (@Ty.map κ ν _ K V).Supported) (hU : (@Ty.map κ ν _ K V).Unshadowed deserializeLocals)
    (hE : (@Ty.map κ ν _ K V).ElementsEmpty u) (w m : SortedMap κ ν) :
    overlay u (@Ty.map κ ν _ K V) w m = w.insertAll m.entries := by
  rw [overlay, map_entries_eq_self (overlay u K (K.defaultInit u))]
  intro e _
  have hkey := overlay_of_containersEmpty u K hT.1 hU.1 hE.1.2 _ e.1 hE.1.1
  have hvalue := overlay_of_containersEmpty u V hT.2 hU.2 hE.2.2 _ e.2 hE.2.1
  exact ⟨hkey, hvalue⟩

/-- Inserting into the entries, and inserting them, come to the same. -/
theorem insertAll_insertAll {κ ν : Type} [LinearOrder κ] (w m : SortedMap κ ν)
    (l : List (κ × ν)) :
    (w.insertAll m.entries).insertAll l = w.insertAll (m.insertAll l).entries := by
  refine SortedMap.ext_find? _ _ fun k => ?_
  have hlookup : ∀ m : SortedMap κ ν, m.entries.reverse.lookup k = m.find? k :=
    fun m => SortedMap.lookup_reverse m.entries m.keys_nodup k
  -- What is inserted last is found first, whichever way the insertions are grouped.
  rw [SortedMap.find?_insertAll, SortedMap.find?_insertAll, SortedMap.find?_insertAll, hlookup,
    hlookup, SortedMap.find?_insertAll, Option.or_assoc]

mutual
/-- Overlaying two values in turn is overlaying the one with the other over
    it. -/
theorem overlay_assoc (u : Uninit) : ∀ {α : Type} (T : Ty α), T.Supported →
    T.Unshadowed deserializeLocals → T.ElementsEmpty u →
      ∀ w v v' : α, overlay u T (overlay u T w v) v' = overlay u T w (overlay u T v v')
  | _, .scalar s, _, _, _, w, v, v' => by simp only [overlay]
  | _, .vector T, hT, hU, hE, w, v, v' => by
      simp only [overlay_vector u T hT hU hE, List.append_assoc]
  | _, @Ty.map _ _ _ K V, hT, hU, hE, w, v, v' => by
      simp only [overlay_map u K V hT hU hE, insertAll_insertAll]
  | _, .cls F _, hT, hU, hE, w, v, v' => by
      unfold overlay
      exact overlayFields_assoc u F hT hU hE w v v'
/-- The same for the members of a class, one by one. -/
theorem overlayFields_assoc (u : Uninit) : ∀ {σ : Type} (F : Fields σ), F.Supported →
    F.Unshadowed deserializeLocals → F.ElementsEmpty u → ∀ w v v' : σ,
      overlayFields u F (overlayFields u F w v) v' = overlayFields u F w (overlayFields u F v v')
  | _, .nil, _, _, _, _, _, _ => rfl
  | _, .cons arg T F, hF, hU, hE, w, v, v' => by
      have hfirst := overlay_assoc u T hF.1 hU.2.1 hE.1 w.1 v.1 v'.1
      have hrest := overlayFields_assoc u F hF.2 hU.2.2 hE.2 w.2 v.2 v'.2
      simp only [overlayFields_cons u arg T F hU.1]
      exact Prod.ext hfirst hrest
end

/-- The merge of values, the later ones over the earlier ones. -/
def mergeAll (u : Uninit) {α : Type} (T : Ty α) (v : α) (vs : List α) : α :=
  vs.foldl (overlay u T) v

/-- What is merged into a merged object might as well have been merged into the
    second of the two. -/
theorem mergeAll_overlay (u : Uninit) {α : Type} (T : Ty α) (hT : T.Supported)
    (hU : T.Unshadowed deserializeLocals) (hE : T.ElementsEmpty u) (w v : α) (vs : List α) :
    mergeAll u T (overlay u T w v) vs = overlay u T w (mergeAll u T v vs) := by
  induction vs generalizing v with
  | nil => rfl
  | cons v' vs ih =>
      rw [mergeAll, List.foldl_cons, overlay_assoc u T hT hU hE]
      exact ih _

/-- Decoding the records of several objects, one after the other, merges the
    objects in that order. -/
theorem deserializeAll_encode (u : Uninit) {α : Type} (T : Ty α) (hU : T.Unshadowed serializeLocals)
    (w : α) (nvs : List (Str × α)) :
    deserializeAll u T w (nvs.map fun nv => encode T nv.1 nv.2) =
      .ok (mergeAll u T w (nvs.map Prod.snd)) := by
  induction nvs generalizing w with
  | nil => rfl
  | cons nv nvs ih =>
      rw [List.map_cons, deserializeAll,
        deserializeField_encode u T _ w nv.2 (arrives_of_unshadowed T hU nv.2)]
      exact ih _

/-- The record is one that the encoder makes of the value. -/
def RecordOf {α : Type} (T : Ty α) (v : α) (r : Record) : Prop :=
  ∃ n cache cache', T.CacheOk cache ∧ serializeField T n v cache = .ok (r, cache')

/-- Whatever is cached, the record of an object is the one that `encode` writes. -/
theorem encode_of_recordOf {α : Type} (T : Ty α) (hT : T.Supported) (v : α) (r : Record)
    (h : RecordOf T v r) : ∃ n, r = encode T n v := by
  rcases h with ⟨n, cache, cache', hcache, hser⟩
  rcases serializeField_eq T hT n v cache hcache with ⟨_, heq, _⟩
  rw [heq, Except.ok.injEq, Prod.mk.injEq] at hser
  exact ⟨n, hser.1.symm⟩

/-- So are the records of several objects, each under some name. -/
theorem records_of_recordOf {α : Type} (T : Ty α) (hT : T.Supported) (vs : List α)
    (rs : List Record) (h : List.Forall₂ (RecordOf T) vs rs) :
    ∃ nvs : List (Str × α), rs = nvs.map (fun nv => encode T nv.1 nv.2) ∧
      vs = nvs.map Prod.snd := by
  induction h with
  | nil => exact ⟨[], rfl, rfl⟩
  | cons hr _ ih =>
      rcases encode_of_recordOf T hT _ _ hr with ⟨n, rfl⟩
      rcases ih with ⟨nvs, rfl, rfl⟩
      exact ⟨(n, _) :: nvs, rfl, rfl⟩

/-- Decoding the records of some objects, at least one, one after another does to
    any target what decoding the record of their merge does. No member may be
    hidden, and the containers of freshly declared items, keys and values must be
    empty. -/
theorem deserializeAll_merged (u : Uninit) {α : Type} (T : Ty α) (hT : T.Supported)
    (hU : T.Unshadowed generatedLocals) (hE : T.ElementsEmpty u) (v : α) (vs : List α)
    (rs : List Record)
    (hrs : List.Forall₂ (RecordOf T) (v :: vs) rs) (r : Record)
    (hr : RecordOf T (mergeAll u T v vs) r) (w : α) :
    deserializeAll u T w rs = deserializeField u T w r := by
  rcases encode_of_recordOf T hT _ r hr with ⟨n, rfl⟩
  rcases records_of_recordOf T hT _ rs hrs with ⟨nvs, rfl, hvs⟩
  rcases (unshadowed_generatedLocals T).mp hU with ⟨hs, hd⟩
  -- Decoding is overlaying, and overlaying is associative.
  rw [deserializeAll_encode u T hs, ← hvs,
    deserializeField_encode u T n w _ (arrives_of_unshadowed T hs _),
    ← mergeAll_overlay u T hT hd hE]
  rfl

/-- Two maps, and the map that has the entries of both. -/
theorem deserializeAll_merged_maps :
    deserializeAll .zeroed mapFieldTy (SortedMap.empty.insert 3 (str "c"))
        [encode mapFieldTy [] (SortedMap.empty.insert 1 (str "a")),
          encode mapFieldTy [] (SortedMap.empty.insert 2 (str "b"))] =
      deserializeField .zeroed mapFieldTy (SortedMap.empty.insert 3 (str "c"))
        (encode mapFieldTy [] ((SortedMap.empty.insert 1 (str "a")).insert 2 (str "b"))) := by
  have hT : mapFieldTy.Supported := ⟨trivial, trivial⟩
  have hrecord : ∀ v, RecordOf mapFieldTy v (encode mapFieldTy [] v) := by
    intro v
    rcases serializeField_eq mapFieldTy hT [] v .fresh (cacheOk_fresh _) with ⟨cache', h, _⟩
    exact ⟨[], .fresh, cache', cacheOk_fresh _, h⟩
  -- The keys differ, so the two maps become one with both.
  exact deserializeAll_merged .zeroed mapFieldTy hT ⟨trivial, trivial⟩
    ⟨⟨trivial, trivial⟩, trivial, trivial⟩ (SortedMap.empty.insert 1 (str "a"))
    [SortedMap.empty.insert 2 (str "b")] _
    (.cons (hrecord _) (.cons (hrecord _) .nil)) _ (hrecord _) _

/-! ### A record that arrives twice -/

mutual
/-- The vectors reached through class members hold nothing. -/
def Ty.VectorsEmpty : {α : Type} → Ty α → α → Prop
  | _, .scalar _, _ => True
  | _, .char, _ => True
  | _, .vector _, v => v = []
  | _, @Ty.map _ _ _ _ _, _ => True
  | _, .cls F _, v => F.VectorsEmpty v
/-- The same for the members of a class. -/
def Fields.VectorsEmpty : {σ : Type} → Fields σ → σ → Prop
  | _, .nil, _ => True
  | _, .cons _ T F, v => T.VectorsEmpty v.1 ∧ F.VectorsEmpty v.2
end

mutual
/-- A value that is merged with itself stays the same exactly if its vectors
    are empty. The entries of a map only take their own places. -/
theorem overlay_self_iff (u : Uninit) : ∀ {α : Type} (T : Ty α), T.Supported →
    T.Unshadowed deserializeLocals → T.ElementsEmpty u →
      ∀ v : α, overlay u T v v = v ↔ T.VectorsEmpty v
  | _, .scalar _, _, _, _, v => by
      rw [overlay]
      exact iff_of_true rfl trivial
  | _, .vector T, hT, hU, hE, v => by
      -- A vector is appended to what is there, here to itself.
      rw [overlay_vector u T hT hU hE, List.append_right_eq_self, Ty.VectorsEmpty]
  | _, @Ty.map _ _ _ K V, hT, hU, hE, m => by
      rw [overlay_map u K V hT hU hE]
      refine iff_of_true ?_ trivial
      -- Every key is there already, with the value it is to get.
      exact (SortedMap.insertAll_eq_iff m m m rfl).mpr ⟨fun _ hk => hk, rfl⟩
  | _, .cls F _, hT, hU, hE, v => by
      rw [overlay]
      exact overlayFields_self_iff u F hT hU hE v
/-- The same for the members of a class. -/
theorem overlayFields_self_iff (u : Uninit) : ∀ {σ : Type} (F : Fields σ), F.Supported →
    F.Unshadowed deserializeLocals → F.ElementsEmpty u →
      ∀ v : σ, overlayFields u F v v = v ↔ F.VectorsEmpty v
  | _, .nil, _, _, _, _ => iff_of_true rfl trivial
  | _, .cons arg T F, hF, hU, hE, v => by
      rw [overlayFields_cons u arg T F hU.1, Fields.VectorsEmpty,
        ← overlay_self_iff u T hF.1 hU.2.1 hE.1 v.1,
        ← overlayFields_self_iff u F hF.2 hU.2.2 hE.2 v.2]
      exact Prod.ext_iff
end

/-- A record that is decoded into an object with empty containers, and then a
    second time into the object that it filled, does no harm exactly if its
    object has only empty vectors. -/
theorem replay_iff (u : Uninit) {α : Type} (T : Ty α) (hT : T.Supported)
    (hU : T.Unshadowed generatedLocals) (hE : T.ElementsEmpty u) (v w : α)
    (hw : T.ContainersEmpty w) (r : Record) (hr : RecordOf T v r) :
    deserializeAll u T w [r, r] = .ok v ↔ T.VectorsEmpty v := by
  rcases encode_of_recordOf T hT v r hr with ⟨n, rfl⟩
  rcases (unshadowed_generatedLocals T).mp hU with ⟨hs, hd⟩
  have hrun := deserializeAll_encode u T hs w [(n, v), (n, v)]
  have hmerge : mergeAll u T w [v, v] = overlay u T v v := by
    -- The first time the object is read as it was.
    have hfirst := overlay_of_containersEmpty u T hT hd hE w v hw
    simp only [mergeAll, List.foldl_cons, List.foldl_nil, hfirst]
  rw [List.map_cons, List.map_singleton, List.map_cons, List.map_singleton, hmerge] at hrun
  rw [hrun, Except.ok.injEq]
  exact overlay_self_iff u T hT hd hE v

/-- An object with a map in it that arrives twice. -/
theorem replay_iff_outer1 :
    deserializeAll .zeroed myOuterClass (SortedMap.empty, ())
      [encode myOuterClass [] outer1, encode myOuterClass [] outer1] = .ok outer1 := by
  have hrecord : RecordOf myOuterClass outer1 (encode myOuterClass [] outer1) := by
    rcases serializeField_eq myOuterClass myOuterClass_supported [] outer1 .fresh (cacheOk_fresh _)
      with ⟨cache', h, _⟩
    exact ⟨[], .fresh, cache', cacheOk_fresh _, h⟩
  -- The vector of the inner class is below a map, where objects are made anew.
  exact (replay_iff .zeroed myOuterClass myOuterClass_supported myOuterClass_unshadowed
    myOuterClass_elementsEmpty outer1 (SortedMap.empty, ()) ⟨rfl, trivial⟩ _ hrecord).mpr
    ⟨trivial, trivial⟩

end Nanoservices
