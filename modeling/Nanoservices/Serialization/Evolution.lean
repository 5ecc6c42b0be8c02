import Nanoservices.Serialization.Overlay
import Nanoservices.Serialization.Safety

/-!
# Records of a Newer Class

A program that was built before members were appended to a class can still be
handed records of the newer class. The older decoder walks its own members and
never asks whether the record vector has ended where they do, and it looks at
no field name, so it reads the newer object as the older one: the appended
members are dropped and renamed members are the same.

`Upgrade` relates an older type to a newer one at every depth, through vectors,
map values and members, and comes with the function that forgets what is new.
Map keys must not change, since keys that differ only in what is forgotten
would fall together. And the names must not get in the way: a member that the
newer encoder does not see, or the older decoder, is not read.

The other direction fails. A newer decoder walks past the end of an older
record vector, and nothing stops it.

## Main definitions

* `Upgrade`, `UpgradeFields`: A newer type and what the older one sees of it.
* `RunsShort`: Returning, or walking past the end of a record vector.

## Theorems

* `deserializeField_upgrade`: The older decoder on a newer record.
* `deserialize_upgraded`: It gives the older view of the object.
* `deserializeField_runsShort`: The newer decoder returns, or walks past an end.
* `downgrade_undefined`: The newer decoder on an older record.
-/

namespace Nanoservices

open Interleave

mutual
/-- The second type is the first one after members have been renamed or appended
    in classes anywhere inside it but in map keys, and the function is what the
    first one sees of its values. -/
inductive Upgrade : {α β : Type} → Ty α → Ty β → (β → α) → Prop
  | refl {α : Type} (T : Ty α) : Upgrade T T id
  | vector {α β : Type} {T : Ty α} {T' : Ty β} {view : β → α} (h : Upgrade T T' view) :
      Upgrade (.vector T) (.vector T') (List.map view)
  | map {κ α β : Type} [LinearOrder κ] (K : Ty κ) {V : Ty α} {V' : Ty β} {view : β → α}
      (h : Upgrade V V' view) :
      Upgrade (@Ty.map κ α _ K V) (@Ty.map κ β _ K V') (SortedMap.mapValues fun _ => view)
  | cls {σ τ : Type} {F : Fields σ} {F' : Fields τ} {view : τ → σ} (h : UpgradeFields F F' view)
      (ctor : σ) (ctor' : τ) : Upgrade (.cls F ctor) (.cls F' ctor') view
/-- The same of the members of a class. -/
inductive UpgradeFields : {σ τ : Type} → Fields σ → Fields τ → (τ → σ) → Prop
  /-- The members that have been appended. -/
  | nil {τ : Type} (F' : Fields τ) : UpgradeFields .nil F' fun _ => ()
  | cons {α β σ τ : Type} (arg arg' : MacroArg) {T : Ty α} {T' : Ty β} {view : β → α}
      {F : Fields σ} {F' : Fields τ} {rest : τ → σ} (h : Upgrade T T' view)
      (hF : UpgradeFields F F' rest) :
      UpgradeFields (.cons arg T F) (.cons arg' T' F') fun v => (view v.1, rest v.2)
end

mutual
/-- The older decoder on a newer record: the target is overlaid with what the
    older type sees of the value. Names do not matter to it. -/
theorem deserializeField_upgrade (u : Uninit) : ∀ {α β : Type} {T : Ty α} {T' : Ty β}
    {view : β → α}, Upgrade T T' view → T'.Unshadowed serializeLocals →
      ∀ (n : Str) (w : α) (v : β),
        deserializeField u T w (encode T' n v) = .ok (overlay u T w (view v))
  | _, _, _, _, _, .refl T, hU, n, w, v =>
    deserializeField_encode u T n w v (arrives_of_unshadowed T hU v)
  | _, _, _, _, _, @Upgrade.vector _ _ T T' view h, hU, n, w, v => by
      have hitem : ∀ x ∈ v, deserializeField u T (T.defaultInit u)
          (encode T' listItemRecordName x) = .ok (overlay u T (T.defaultInit u) (view x)) := by
        intro x _
        exact deserializeField_upgrade u h hU _ _ x
      -- The loop appends the older views of the items.
      have hloop := deserializeListLoop_map _ _ _ _ v hitem w
      simp only [deserializeField, deserializeListField, encode, readRecords_records, overlay,
        List.map_map, Function.comp_def]
      exact hloop
  | _, _, _, _, _, @Upgrade.map _ _ _ _ K V V' view h, hU, n, w, m => by
      -- The keys are of the same type in both programs, and are read back.
      have hkey : ∀ e ∈ m.entries, deserializeField u K (K.defaultInit u)
          (encode K mapItemKeyRecordName e.1) = .ok (overlay u K (K.defaultInit u) e.1) := by
        intro e _
        exact deserializeField_encode u K _ _ e.1 (arrives_of_unshadowed K hU.1 e.1)
      have hvalue : ∀ e ∈ m.entries, deserializeField u V (V.defaultInit u)
          (encode V' mapItemValueRecordName e.2) =
            .ok (overlay u V (V.defaultInit u) (view e.2)) := by
        intro e _
        exact deserializeField_upgrade u h hU.2 _ _ e.2
      have hloop := deserializeMapLoop_interleave n _ _ _ _ _ _ _ _ m.entries hkey hvalue w
      simp only [deserializeField, deserializeMapField, encode, readRecords_records, overlay,
        SortedMap.mapValues, List.map_map, Function.comp_def]
      exact hloop
  | _, _, _, _, _, .cls h ctor ctor', hU, n, w, v => by
      simp only [deserializeField, encode, readRecords_records, overlay]
      exact deserializeClauses_upgrade u h hU w v
/-- The same for the members of a class. -/
theorem deserializeClauses_upgrade (u : Uninit) : ∀ {σ τ : Type} {F : Fields σ} {F' : Fields τ}
    {view : τ → σ}, UpgradeFields F F' view → F'.Unshadowed serializeLocals → ∀ (w : σ) (v : τ),
      deserializeClauses u F w (encodeFields F' v) = .ok (overlayFields u F w (view v))
  -- The records that are left over are not looked at.
  | _, _, _, _, _, .nil F', _, w, v => rfl
  | _, _, _, _, _, .cons arg arg' h hF, hU, w, v => by
      simp only [encodeFields, memberRecord_eq arg' hU.1, deserializeClauses,
        deserializeField_upgrade u h hU.2.1 _ w.1 v.1,
        deserializeClauses_upgrade u hF hU.2.2 w.2 v.2,
        overlayFields, deserializeFieldclause_ok]
end

/-- A record that a newer program has written is read by an older one, in any
    object whose containers are empty, as the older view of the object. The
    members of the older classes must not be hidden from the decoder, and those
    of the newer ones not from the encoder. -/
theorem deserialize_upgraded (u : Uninit) {α β : Type} {T : Ty α} {T' : Ty β} {view : β → α}
    (hview : Upgrade T T' view) (hT : T.Supported) (hT' : T'.Supported)
    (hU : T.Unshadowed deserializeLocals) (hU' : T'.Unshadowed serializeLocals)
    (hE : T.ElementsEmpty u) (n : Str) (v : β) (w : α) (hw : T.ContainersEmpty w)
    (cache : NameCache)
    (hcache : T'.CacheOk cache) :
    ∃ r cache', serializeField T' n v cache = .ok (r, cache') ∧
      deserializeField u T w r = .ok (view v) := by
  -- There is nothing to overlay in a fresh object, so the view is what is left.
  rcases serializeField_eq T' hT' n v cache hcache with ⟨cache', hser, _⟩
  refine ⟨_, cache', hser, ?_⟩
  rw [deserializeField_upgrade u hview hU', overlay_of_containersEmpty u T hT hU hE w _ hw]

/-- The name of the first member of `MyInnerClass`. -/
theorem int32Field_ne_nil : str "int32Field" ≠ [] := by decide

theorem int32Field_valid : (str "int32Field").all isIdentifierChar = true := by decide

/-- The first member of `MyInnerClass`, as if it were its only one. -/
def olderInnerFields : Fields (Int32 × Unit) :=
  .cons (firstArg (identifier "int32Field" int32Field_ne_nil int32Field_valid)) (.scalar .int32)
    .nil

/-- A vector of the test's inner class, read by a program in which the class has
    its first member only. -/
theorem deserialize_upgraded_inner :
    ∃ r cache', serializeField (.vector myInnerClass) (str "items")
        [(234, SortedMap.empty.insert 32 (str "Hallo"), [0], ())] .fresh = .ok (r, cache') ∧
      deserializeField .zeroed (.vector (.cls olderInnerFields (0, ()))) [] r =
        .ok [(234, ())] := by
  have hview : Upgrade (.vector (.cls olderInnerFields (0, ()))) (.vector myInnerClass)
      (List.map fun v => (v.1, ())) :=
    .vector (.cls (.cons _ _ (.refl (.scalar .int32)) (.nil _)) _ _)
  have hT : (Ty.vector (.cls olderInnerFields (0, ()))).Supported := ⟨trivial, trivial⟩
  have hT' : (Ty.vector myInnerClass).Supported := ⟨trivial, ⟨trivial, trivial⟩, trivial, trivial⟩
  have hE : (Ty.vector (.cls olderInnerFields (0, ()))).ElementsEmpty .zeroed :=
    ⟨⟨trivial, trivial⟩, trivial, trivial⟩
  have hU : (Ty.vector (.cls olderInnerFields (0, ()))).Unshadowed deserializeLocals :=
    ⟨by decide, trivial, trivial⟩
  have hU' : (Ty.vector myInnerClass).Unshadowed serializeLocals :=
    ⟨by decide, trivial, by decide, ⟨trivial, trivial⟩, by decide, trivial, trivial⟩
  exact deserialize_upgraded .zeroed hview hT hT' hU hU' hE (str "items") _ [] rfl .fresh
    (cacheOk_fresh _)

/-! ### The newer decoder -/

/-- The call returns, or it has walked past the end of a record vector. -/
def RunsShort {α : Type} (d : Decoded α) : Prop :=
  Returns d ∨ ∃ w, d = .error (.undefined .pastTheEnd, w)

/-- The list loop ends as the first of its items does that does not return. -/
theorem deserializeListLoop_runsShort {α : Type} (t : α) (item : α → Record → Decoded α)
    (rs : List Record) (h : ∀ r ∈ rs, RunsShort (item t r)) (target : List α) :
    RunsShort (deserializeListLoop t item target rs) := by
  induction rs generalizing target with
  | nil => exact .inl (returns_ok target)
  | cons r rs ih =>
      rcases List.forall_mem_cons.mp h with ⟨hr, hrs⟩
      unfold deserializeListLoop
      rcases hr with ⟨x, hx⟩ | ⟨w, hw⟩
      · rw [hx]
        exact ih hrs _
      · rw [hw]
        exact .inr ⟨target, rfl⟩

/-- The map loop over whole entries ends as the first of its values does that
    does not return; its keys return. -/
theorem deserializeMapLoop_runsShort {κ ν : Type} [LinearOrder κ] (n : Str) (k₀ : κ) (v₀ : ν)
    (keyItem : κ → Record → Decoded κ) (valueItem : ν → Record → Decoded ν)
    (ps : List (Record × Record))
    (h : ∀ p ∈ ps, Returns (keyItem k₀ p.1) ∧ RunsShort (valueItem v₀ p.2))
    (target : SortedMap κ ν) :
    RunsShort (deserializeMapLoop n k₀ v₀ keyItem valueItem target (interleave ps)) := by
  induction ps generalizing target with
  | nil => exact .inl (returns_ok target)
  | cons p ps ih =>
      rcases List.forall_mem_cons.mp h with ⟨⟨⟨k, hk⟩, hp⟩, hps⟩
      unfold interleave deserializeMapLoop
      rw [hk]
      rcases hp with ⟨x, hx⟩ | ⟨w, hw⟩
      · rw [hx]
        exact ih hps _
      · rw [hw]
        exact .inr ⟨target, rfl⟩

/-- The clause of a member ends as decoding the member does, or leaves it as it
    is. -/
theorem deserializeFieldclause_runsShort {α : Type} (arg : MacroArg) (target : α) (d : Decoded α)
    (hd : RunsShort d) : RunsShort (deserializeFieldclause arg target d) := by
  unfold deserializeFieldclause
  split
  · exact .inl (returns_ok target)
  · exact hd

mutual
/-- Whatever the newer decoder does on an older record, it does not throw, and
    it reads nothing as another type. -/
theorem deserializeField_runsShort (u : Uninit) : ∀ {α β : Type} {T : Ty α} {T' : Ty β}
    {view : β → α}, Upgrade T T' view → T.Unshadowed serializeLocals →
      ∀ (n : Str) (w : β) (v : α), RunsShort (deserializeField u T' w (encode T n v))
  | _, _, _, _, _, .refl T, hU, n, w, v =>
    .inl ⟨_, deserializeField_encode u T n w v (arrives_of_unshadowed T hU v)⟩
  | _, _, _, _, _, @Upgrade.vector _ _ T T' view h, hU, n, w, v => by
      simp only [deserializeField, deserializeListField, encode, readRecords_records]
      refine deserializeListLoop_runsShort _ _ _ ?_ w
      intro r hr
      rcases List.mem_map.mp hr with ⟨x, _, rfl⟩
      exact deserializeField_runsShort u h hU _ _ x
  | _, _, _, _, _, @Upgrade.map _ _ _ _ K V V' view h, hU, n, w, m => by
      simp only [deserializeField, deserializeMapField, encode, readRecords_records]
      refine deserializeMapLoop_runsShort _ _ _ _ _ _ ?_ w
      intro p hp
      rcases List.mem_map.mp hp with ⟨e, _, rfl⟩
      -- Keys are of the same type in both programs.
      have hkey := deserializeField_encode u K mapItemKeyRecordName (K.defaultInit u) e.1
        (arrives_of_unshadowed K hU.1 e.1)
      exact ⟨⟨_, hkey⟩, deserializeField_runsShort u h hU.2 _ _ e.2⟩
  | _, _, _, _, _, .cls h ctor ctor', hU, n, w, v => by
      simp only [deserializeField, encode, readRecords_records]
      exact deserializeClauses_runsShort u h hU w v
/-- The same for the members of a class. -/
theorem deserializeClauses_runsShort (u : Uninit) : ∀ {σ τ : Type} {F : Fields σ} {F' : Fields τ}
    {view : τ → σ}, UpgradeFields F F' view → F.Unshadowed serializeLocals → ∀ (w : τ) (v : σ),
      RunsShort (deserializeClauses u F' w (encodeFields F v))
  | _, _, _, _, _, .nil .nil, _, w, v => .inl (returns_ok w)
  -- The first of the members that were appended has no record.
  | _, _, _, _, _, .nil (.cons _ _ _), _, w, v => .inr ⟨w, rfl⟩
  | _, _, _, _, _, .cons arg arg' h hF, hU, w, v => by
      have hmember := deserializeFieldclause_runsShort arg' w.1 _
        (deserializeField_runsShort u h hU.2.1 arg.name.chars w.1 v.1)
      unfold encodeFields deserializeClauses
      rw [memberRecord_eq arg hU.1]
      -- The member is decoded, and then the others, or it is where decoding ends.
      rcases hmember with ⟨x, hx⟩ | ⟨x, hx⟩
      · rw [hx]
        rcases deserializeClauses_runsShort u hF hU.2.2 w.2 v.2 with ⟨xs, hxs⟩ | ⟨xs, hxs⟩
        · rw [hxs]
          exact .inl (returns_ok (x, xs))
        · rw [hxs]
          exact .inr ⟨(x, xs), rfl⟩
      · rw [hx]
        exact .inr ⟨(x, w.2), rfl⟩
end

/-- It does not return either, if there are more members than records. -/
theorem not_returns_downgrade (u : Uninit) : ∀ {σ τ : Type} {F : Fields σ} {F' : Fields τ}
    {view : τ → σ}, UpgradeFields F F' view → F.args.length < F'.args.length → ∀ (w : τ) (v : σ),
      ¬Returns (deserializeClauses u F' w (encodeFields F v))
  | _, _, _, _, _, .nil .nil, hlen, w, v => absurd hlen (Nat.lt_irrefl _)
  | _, _, _, _, _, .nil (.cons _ _ _), _, w, v => not_returns_error _
  | _, _, _, _, _, @UpgradeFields.cons _ _ _ _ arg arg' T T' _ F F' _ h hF, hlen, w, v => by
      have hlen' : F.args.length < F'.args.length := Nat.lt_of_succ_lt_succ hlen
      have hrest := not_returns_downgrade u hF hlen' w.2 v.2
      unfold encodeFields deserializeClauses
      -- The clause of the first member has its record; the others are one short.
      cases hx : deserializeFieldclause arg' w.1 (deserializeField u T' w.1
        (memberRecord arg (encode T arg.name.chars v.1))) with
      | error e => exact not_returns_error _
      | ok x =>
          cases hxs : deserializeClauses u F' w.2 (encodeFields F v.2) with
          | error e => exact not_returns_error _
          | ok xs => exact absurd ⟨xs, hxs⟩ hrest

/-- A program to whose class members have been appended does not survive the
    records of the older class, whatever is in the object it decodes into, if no
    member of the older class is hidden from the encoder. -/
theorem downgrade_undefined (u : Uninit) {σ τ : Type} {F : Fields σ} {F' : Fields τ}
    {view : τ → σ} (hview : UpgradeFields F F' view) (hlen : F.args.length < F'.args.length)
    (hF : F.Supported) (hU : F.Unshadowed serializeLocals) (ctor v : σ) (w : τ) (cache : NameCache)
    (hcache : (Ty.cls F ctor).CacheOk cache) :
    ∃ rs cache' w', serializerSerialize F v cache = .ok (rs, cache') ∧
      serializerDeserialize u F' w rs = .error (.undefined .pastTheEnd, w') := by
  rcases serializerSerialize_eq F hF ctor v cache hcache with ⟨cache', hser, _⟩
  rcases deserializeClauses_runsShort u hview hU w v with hreturns | ⟨w', hw'⟩
  · -- It cannot return: there are more members than records.
    exact absurd hreturns (not_returns_downgrade u hview hlen w v)
  · exact ⟨_, cache', w', hser, hw'⟩

/-- The records of the first member of the inner class, read by a program in
    which the class has its first two members. -/
theorem downgrade_undefined_inner :
    ∃ rs cache' w', serializerSerialize olderInnerFields (234, ()) .fresh = .ok (rs, cache') ∧
      serializerDeserialize .zeroed
          (.cons (firstArg (identifier "int32Field" int32Field_ne_nil int32Field_valid))
            (.scalar .int32)
            (.cons (nextArg (identifier "mapField" (by decide) (by decide))) mapFieldTy .nil))
          (0, SortedMap.empty, ()) rs = .error (.undefined .pastTheEnd, w') := by
  have hF : olderInnerFields.Supported := ⟨trivial, trivial⟩
  have hU : olderInnerFields.Unshadowed serializeLocals := ⟨by decide, trivial, trivial⟩
  exact downgrade_undefined .zeroed (.cons _ _ (.refl (.scalar .int32)) (.nil _)) (by decide) hF hU
    (0, ()) (234, ()) (0, SortedMap.empty, ()) .fresh (cacheOk_fresh _)

end Nanoservices
