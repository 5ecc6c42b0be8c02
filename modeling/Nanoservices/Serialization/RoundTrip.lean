import Nanoservices.Serialization.Overlay

/-!
# The Round Trip

Serializing a value and deserializing the record. Into a freshly constructed
object the value comes back, unless names get in the way: a member that is
called like a variable of one of the generated functions is not serialized, or
not deserialized. What that means for a value is that it must arrive and be
absorbed, and that is exact (`roundTrips_iff_absorbed`). All values of a type
come back exactly if no class inside it has such a member (`roundTrips_iff`).

Into an object with old contents a value comes back if the contents are
absorbed. The decoder does not clear vectors and maps, so most are not
(`determinesTarget_iff`).

## Main definitions

* `RoundTrips`, `MembersRoundTrip`: The value is read back.
* `DeterminesTarget`: Two targets end up equal to the serialized value.

## Theorems

* `Ty.nontrivial`: A type has two values.
* `unshadowed_of_forall_absorbed`: A hidden member is missed in some value.
* `roundTrips_iff_absorbed`: When a value is read back.
* `membersRoundTrip_iff`: The functions of a class are those of its type.
* `roundTrips_iff`: When all values are.
* `determinesTarget_iff`: When decoding determines the target.
-/

namespace Nanoservices

/-- The value is serialized without a fault, and deserializing the record into
    `w` returns and leaves the value. -/
def RoundTrips (u : Uninit) {α : Type} (T : Ty α) (n : Str) (v w : α) (cache : NameCache) : Prop :=
  ∃ r cache', serializeField T n v cache = .ok (r, cache') ∧ deserializeField u T w r = .ok v

/-- The same of the two member functions of a class. -/
def MembersRoundTrip (u : Uninit) {σ : Type} (F : Fields σ) (v w : σ) (cache : NameCache) : Prop :=
  ∃ rs cache', serializerSerialize F v cache = .ok (rs, cache') ∧
    serializerDeserialize u F w rs = .ok v

/-- What `serialize_field` and `deserialize_field` do with an object of a class
    is left to its member functions. -/
theorem membersRoundTrip_iff (u : Uninit) {σ : Type} (F : Fields σ) (ctor : σ) (n : Str) (v w : σ)
    (cache : NameCache) :
    MembersRoundTrip u F v w cache ↔ RoundTrips u (.cls F ctor) n v w cache := by
  unfold MembersRoundTrip RoundTrips serializerSerialize serializeField
  cases serializeObject F.args (serializeClauses F v) cache with
  | error f => simp only [reduceCtorEq, false_and, exists_false]
  | ok p =>
      -- The record has the records of the members as its data, and nothing else.
      constructor
      · rintro ⟨rs, cache', hser, hdes⟩
        rw [Except.ok.injEq] at hser
        refine ⟨_, p.2, rfl, ?_⟩
        rw [deserializeField, readRecords_records, hser]
        exact hdes
      · rintro ⟨r, cache', hser, hdes⟩
        rw [Except.ok.injEq, Prod.mk.injEq] at hser
        rw [deserializeField, ← hser.1, readRecords_records] at hdes
        exact ⟨p.1, p.2, rfl, hdes⟩

/-! ### Fresh targets -/

/-- A value comes back from a fresh object exactly if it arrives there and is
    absorbed. -/
theorem roundTrips_iff_absorbed (u : Uninit) {α : Type} (T : Ty α) (hT : T.Supported)
    (hE : T.ElementsEmpty u) (n : Str) (v w : α) (hw : T.ContainersEmpty w) (cache : NameCache)
    (hcache : T.CacheOk cache) :
    RoundTrips u T n v w cache ↔ Arrives T v ∧ Absorbed u T w v := by
  rcases serializeField_eq T hT n v cache hcache with ⟨cache', hser, _⟩
  constructor
  · rintro ⟨r, cache'', hser', hdes⟩
    rw [hser, Except.ok.injEq, Prod.mk.injEq] at hser'
    rw [← hser'.1] at hdes
    have harrives := (returns_encode_iff u T hT n w v).mp ⟨v, hdes⟩
    rw [deserializeField_encode u T n w v harrives, Except.ok.injEq] at hdes
    exact ⟨harrives, absorbed_of_overlay_empty u T hT hE w v hw hdes⟩
  · rintro ⟨harrives, habsorbed⟩
    refine ⟨_, cache', hser, ?_⟩
    rw [deserializeField_encode u T n w v harrives, overlay_of_absorbed u T w v habsorbed]

/-- Each scalar type has two values. -/
theorem Scalar.nontrivial (s : Scalar) : Nontrivial s.Carrier := by
  cases s with
  | string => exact ⟨[], [0], (List.cons_ne_nil _ _).symm⟩
  | int8 => exact ⟨(0 : Int8), 1, by decide⟩
  | uInt8 => exact ⟨(0 : UInt8), 1, by decide⟩
  | int16 => exact ⟨(0 : Int16), 1, by decide⟩
  | uInt16 => exact ⟨(0 : UInt16), 1, by decide⟩
  | int32 => exact ⟨(0 : Int32), 1, by decide⟩
  | uInt32 => exact ⟨(0 : UInt32), 1, by decide⟩
  | int64 => exact ⟨(0 : Int64), 1, by decide⟩
  | uInt64 => exact ⟨(0 : UInt64), 1, by decide⟩
  | float => exact ⟨(0 : BitVec 32), 1, by decide⟩
  | double => exact ⟨(0 : BitVec 64), 1, by decide⟩

mutual
/-- A type has two values, if its classes have members. -/
theorem Ty.nontrivial (u : Uninit) : ∀ {α : Type} (T : Ty α), T.ClassesNonempty → Nontrivial α
  | _, .scalar s, _ => s.nontrivial
  | _, .char, _ => ⟨(0 : UInt8), 1, by decide⟩
  | _, .vector T, _ => ⟨[], [T.defaultInit u], (List.cons_ne_nil _ _).symm⟩
  | _, @Ty.map _ _ _ K V, _ => by
      -- A map with an entry and one without.
      refine ⟨SortedMap.empty, SortedMap.empty.insert (K.defaultInit u) (V.defaultInit u), ?_⟩
      intro h
      exact List.cons_ne_nil _ _ (congrArg SortedMap.entries h).symm
  | _, .cls F ctor, h => Fields.nontrivial u F h.1 h.2 ctor
/-- The same for the members of a class: two objects that differ in the first
    one. -/
theorem Fields.nontrivial (u : Uninit) : ∀ {σ : Type} (F : Fields σ), F.args ≠ [] →
    F.ClassesNonempty → σ → Nontrivial σ
  | _, .nil, h, _, _ => absurd rfl h
  | _, .cons _ T _, _, h, v => by
      rcases Ty.nontrivial u T h.1 with ⟨x, y, hxy⟩
      refine ⟨(x, v.2), (y, v.2), ?_⟩
      intro hpair
      exact hxy (congrArg Prod.fst hpair)
end

mutual
/-- If all values arrive and are absorbed there is no hidden member: it would be
    missed in a value in which it is something else than in the target. -/
theorem unshadowed_of_forall_absorbed (u : Uninit) : ∀ {α : Type} (T : Ty α), T.ClassesNonempty →
    ∀ w : α, (∀ v, Arrives T v ∧ Absorbed u T w v) → T.Unshadowed generatedLocals
  | _, .scalar _, _, _, _ => trivial
  | _, .char, _, _, _ => trivial
  | _, .vector T, hN, w, h => by
      refine unshadowed_of_forall_absorbed u T hN (T.defaultInit u) ?_
      intro x
      rcases h [x] with ⟨harrives, habsorbed⟩
      exact ⟨harrives x List.mem_cons_self, habsorbed.2 x List.mem_cons_self⟩
  | _, @Ty.map κ ν _ K V, hN, w, h => by
      have hentry : ∀ (k : κ) (x : ν), (Arrives K k ∧ Absorbed u K (K.defaultInit u) k) ∧
          Arrives V x ∧ Absorbed u V (V.defaultInit u) x := by
        intro k x
        rcases h (SortedMap.empty.insert k x) with ⟨harrives, habsorbed⟩
        rcases harrives (k, x) List.mem_cons_self with ⟨hk, hx⟩
        rcases habsorbed.2 (k, x) List.mem_cons_self with ⟨hk', hx'⟩
        exact ⟨⟨hk, hk'⟩, hx, hx'⟩
      have hK := unshadowed_of_forall_absorbed u K hN.1 _ fun k => (hentry k (V.defaultInit u)).1
      have hV := unshadowed_of_forall_absorbed u V hN.2 _ fun x => (hentry (K.defaultInit u) x).2
      exact ⟨hK, hV⟩
  | _, .cls F _, hN, w, h => unshadowedFields_of_forall_absorbed u F hN.2 w h
/-- The same for the members of a class. -/
theorem unshadowedFields_of_forall_absorbed (u : Uninit) : ∀ {σ : Type} (F : Fields σ),
    F.ClassesNonempty → ∀ w : σ, (∀ v, ArrivesFields F v ∧ AbsorbedFields u F w v) →
      F.Unshadowed generatedLocals
  | _, .nil, _, _, _ => trivial
  | _, .cons arg T F, hN, w, h => by
      have hd : arg.shadowed deserializeLocals = false := by
        rw [← Bool.not_eq_true]
        intro hd
        -- The target would have to hold two values.
        rcases Ty.nontrivial u T hN.1 with ⟨x, y, hxy⟩
        have hx := (h (x, w.2)).2.1
        have hy := (h (y, w.2)).2.1
        rw [hd, if_pos rfl] at hx hy
        exact hxy (hx.symm.trans hy)
      have hmember : ∀ x, Arrives T x ∧ Absorbed u T w.1 x := by
        intro x
        rcases h (x, w.2) with ⟨harrives, habsorbed⟩
        have hx := habsorbed.1
        rw [hd, if_neg Bool.false_ne_true] at hx
        exact ⟨(harrives.1 hd).2, hx⟩
      have hs := ((h w).1.1 hd).1
      have hT := unshadowed_of_forall_absorbed u T hN.1 w.1 hmember
      have hF := unshadowedFields_of_forall_absorbed u F hN.2 w.2 fun xs =>
        ⟨(h (w.1, xs)).1.2, (h (w.1, xs)).2.2⟩
      exact ⟨(shadowed_generatedLocals arg).mpr ⟨hs, hd⟩, hT, hF⟩
end

/-- Serializing a value and deserializing the record into a freshly constructed
    object gives the value back exactly if it arrives and is absorbed; for all
    values of a type it does exactly if no class inside the type has a member
    that is called like one of the variables of the generated functions. The
    pair of member functions of a class does the same as the pair of functions
    for its type. -/
theorem roundTrips_iff (u : Uninit) :
    (∀ {α : Type} (T : Ty α), T.Supported → T.ElementsEmpty u → ∀ w : α, T.ContainersEmpty w →
      (∀ (n : Str) (v : α) (cache : NameCache), T.CacheOk cache →
        (RoundTrips u T n v w cache ↔ Arrives T v ∧ Absorbed u T w v)) ∧
      (T.ClassesNonempty → ((∀ (n : Str) (v : α) (cache : NameCache), T.CacheOk cache →
        RoundTrips u T n v w cache) ↔ T.Unshadowed generatedLocals))) ∧
    (∀ {σ : Type} (F : Fields σ) (ctor : σ) (n : Str) (v w : σ) (cache : NameCache),
      MembersRoundTrip u F v w cache ↔ RoundTrips u (.cls F ctor) n v w cache) := by
  refine ⟨?_, membersRoundTrip_iff u⟩
  intro α T hT hE w hw
  have hvalue : ∀ (n : Str) (v : α) (cache : NameCache), T.CacheOk cache →
      (RoundTrips u T n v w cache ↔ Arrives T v ∧ Absorbed u T w v) := by
    intro n v cache hcache
    exact roundTrips_iff_absorbed u T hT hE n v w hw cache hcache
  refine ⟨hvalue, ?_⟩
  intro hN
  constructor
  · intro h
    refine unshadowed_of_forall_absorbed u T hN w ?_
    intro v
    exact (hvalue [] v .fresh (cacheOk_fresh T)).mp (h [] v .fresh (cacheOk_fresh T))
  · intro hU n v cache hcache
    rcases (unshadowed_generatedLocals T).mp hU with ⟨hs, hd⟩
    exact (hvalue n v cache hcache).mpr
      ⟨arrives_of_unshadowed T hs v, absorbed_of_containersEmpty u T hT hd hE w v hw⟩

/-- The test's object survives, as a field and through its member functions. -/
theorem roundTrips_iff_outer1 :
    RoundTrips .zeroed myOuterClass (str "outer") outer1 (SortedMap.empty, ()) .fresh ∧
      MembersRoundTrip .zeroed myOuterClassFields outer1 (SortedMap.empty, ()) .fresh := by
  have hnonempty : myOuterClass.ClassesNonempty :=
    ⟨List.cons_ne_nil _ _, ⟨trivial, List.cons_ne_nil _ _, trivial, ⟨trivial, trivial⟩, trivial,
      trivial⟩, trivial⟩
  -- As a field, and then through the member functions, which do the same.
  have hfield := (((roundTrips_iff .zeroed).1 myOuterClass myOuterClass_supported
    myOuterClass_elementsEmpty (SortedMap.empty, ()) ⟨rfl, trivial⟩).2 hnonempty).mpr
    myOuterClass_unshadowed (str "outer") outer1 .fresh (cacheOk_fresh _)
  exact ⟨hfield, ((roundTrips_iff .zeroed).2 _ _ _ _ _ _).mpr hfield⟩

/-- A number that is called `result` does not come back. -/
theorem not_roundTrips_result :
    ¬ ∀ (u : Uninit) {α : Type} (T : Ty α), T.Supported → T.ClassesNonempty → T.ElementsEmpty u →
      ∀ (n : Str) (v w : α) (cache : NameCache), T.CacheOk cache → T.ContainersEmpty w →
        RoundTrips u T n v w cache := by
  intro h
  -- It would have to arrive, and its one member does not.
  have hround := h .zeroed resultClass ⟨trivial, trivial⟩ ⟨List.cons_ne_nil _ _, trivial, trivial⟩
    ⟨trivial, trivial⟩ [] (5, ()) (0, ()) .fresh (cacheOk_fresh _) ⟨trivial, trivial⟩
  rw [roundTrips_iff_absorbed .zeroed resultClass ⟨trivial, trivial⟩ ⟨trivial, trivial⟩ [] (5, ())
    (0, ()) ⟨trivial, trivial⟩ .fresh (cacheOk_fresh _)] at hround
  exact absurd (hround.1.1 (by decide)).1 (by decide)

/-! ### Targets with old contents -/

/-- Both targets hold the serialized value after decoding its record. -/
def DeterminesTarget (u : Uninit) {α : Type} (T : Ty α) (v w₁ w₂ : α) (r : Record) : Prop :=
  deserializeField u T w₁ r = .ok v ∧ deserializeField u T w₂ r = .ok v

/-- Two targets are both left with the serialized value when it arrives and both
    absorb it. It must arrive in any case, and be absorbed where keys are
    decoded to what they were. -/
theorem determinesTarget_iff (u : Uninit) {α : Type} (T : Ty α) (hT : T.Supported) (n : Str)
    (v w₁ w₂ : α) (cache cache' : NameCache) (hcache : T.CacheOk cache) (r : Record)
    (hr : serializeField T n v cache = .ok (r, cache')) :
    (Arrives T v ∧ Absorbed u T w₁ v ∧ Absorbed u T w₂ v → DeterminesTarget u T v w₁ w₂ r) ∧
    (DeterminesTarget u T v w₁ w₂ r → Arrives T v ∧
      (T.KeysFaithful u → Absorbed u T w₁ v ∧ Absorbed u T w₂ v)) := by
  -- The record is that of the value, and both targets are overlaid with it.
  rcases serializeField_eq T hT n v cache hcache with ⟨cache'', hser, _⟩
  rw [hser, Except.ok.injEq, Prod.mk.injEq] at hr
  rw [DeterminesTarget, ← hr.1]
  constructor
  · rintro ⟨harrives, h₁, h₂⟩
    rw [deserializeField_encode u T n w₁ v harrives, deserializeField_encode u T n w₂ v harrives,
      overlay_of_absorbed u T w₁ v h₁, overlay_of_absorbed u T w₂ v h₂]
    exact ⟨rfl, rfl⟩
  · rintro ⟨h₁, h₂⟩
    have harrives := (returns_encode_iff u T hT n w₁ v).mp ⟨v, h₁⟩
    rw [deserializeField_encode u T n _ v harrives, Except.ok.injEq] at h₁ h₂
    refine ⟨harrives, ?_⟩
    intro hK
    exact ⟨absorbed_of_overlay u T hT hK w₁ v h₁, absorbed_of_overlay u T hT hK w₂ v h₂⟩

/-- A map with a key that comes again absorbs, a vector that is not empty does
    not. -/
theorem determinesTarget_iff_reused :
    DeterminesTarget .zeroed mapFieldTy (SortedMap.empty.insert 7 (str "new")) SortedMap.empty
        (SortedMap.empty.insert 7 (str "old"))
        ⟨.map, [], .records [⟨.signedInt32, mapItemKeyRecordName, .scalar .int32 7⟩,
          ⟨.string, mapItemValueRecordName, .scalar .string (str "new")⟩]⟩ ∧
      ¬ DeterminesTarget .zeroed (.vector (.scalar .int32)) [2] [] [2]
        ⟨.list, [], .records [⟨.signedInt32, listItemRecordName, .scalar .int32 2⟩]⟩ := by
  constructor
  · refine (determinesTarget_iff .zeroed mapFieldTy ⟨trivial, trivial⟩ [] _ _ _ .fresh _
      (cacheOk_fresh _) _ rfl).1 ⟨?_, ⟨?_, ?_⟩, ⟨?_, ?_⟩⟩
    · intro e _
      exact ⟨trivial, trivial⟩
    · intro k hk
      exact absurd hk List.not_mem_nil
    · intro e _
      exact ⟨trivial, trivial⟩
    · intro k hk
      exact hk
    · intro e _
      exact ⟨trivial, trivial⟩
  · -- The vector holds an item, so it is not absorbed.
    intro h
    have habsorbed := ((determinesTarget_iff .zeroed (.vector (.scalar .int32)) trivial [] [2]
      [] [2] .fresh _ (cacheOk_fresh _) _ rfl).2 h).2 trivial
    exact absurd habsorbed.2.1 (List.cons_ne_nil _ _)

/-- Decoding a list of one item into a vector that an earlier decoding of the
    same record filled leaves two items. -/
theorem not_determinesTarget_vector :
    ¬ ∀ (u : Uninit) {α : Type} (T : Ty α), T.Supported → ∀ (n : Str) (v w₁ w₂ : α)
      (cache cache' : NameCache), T.CacheOk cache → ∀ (r : Record),
        serializeField T n v cache = .ok (r, cache') → DeterminesTarget u T v w₁ w₂ r := by
  intro h
  -- The second decoding appends to what the first has left.
  have htwice := (h .zeroed (.vector (.scalar .int32)) trivial [] [2] [] [2] .fresh _
    (cacheOk_fresh _) _ rfl).2
  have hlen : ([2, 2] : List Int32) = [2] := Except.ok.inj htwice
  exact absurd hlen (by decide)

end Nanoservices
