import Nanoservices.Serialization.Overlay

/-!
# Byte Arrays

What becomes of a `std::vector<char>`. There is a tag for it, but nothing is
ever written under that tag: `serialize_list_field` compares the type of the
*items* with `std::vector<char>`, which is one level too deep, and on a vector
of byte vectors, where the comparison holds, the branch does not compile. So a
byte vector is written as a list of its characters, and since `char` is none of
the types the dispatch knows, each of them becomes a null record.

The decoder has no branch for the tag either. It reads the bytes of a byte
array record as a vector of records, and from the encoder's own list it makes
characters that were never written.

## Main definitions

* `BytesSurvive`: A byte vector is written as a byte array and read back.

## Theorems

* `serializeField_no_byteArray`: The encoder never uses the tag.
* `serializeField_bytes`: A byte vector is written as null records.
* `deserializeField_byteArray`: A byte array record is misread.
* `roundTrip_bytes`: As many characters come back, none of them written.
* `bytes_never_survive`: No byte vector survives anywhere.
-/

namespace Nanoservices

/-- The byte vector is written as a byte array record that holds it, and the
    record is read back into an empty vector as the same bytes. -/
def BytesSurvive (u : Uninit) (n : Str) (b : List UInt8) (cache : NameCache) : Prop :=
  (∃ cache', serializeField (.vector .char) n b cache =
      .ok (⟨.byteArray, n, .byteArray b⟩, cache')) ∧
    deserializeField u (.vector .char) [] ⟨.byteArray, n, .byteArray b⟩ = .ok b

/-! ### No byte array record is written -/

/-- What holds of every record the items are written to holds of all records of
    the list loop. -/
theorem serializeListLoop_forall {α : Type} (item : Str → α → NameCache → Serialized)
    (P : Record → Prop)
    (hitem : ∀ n x cache r cache', item n x cache = .ok (r, cache') → P r) (xs : List α)
    (caches : List NameCache) (rs : List Record) (caches' : List NameCache)
    (h : serializeListLoop item xs caches = .ok (rs, caches')) : ∀ c ∈ rs, P c := by
  induction xs generalizing caches rs caches' with
  | nil =>
      rw [serializeListLoop, Except.ok.injEq, Prod.mk.injEq] at h
      rw [← h.1]
      intro c hc
      exact absurd hc List.not_mem_nil
  | cons x xs ih =>
      rw [serializeListLoop] at h
      -- The loop returned, so this item did, and so did the loop over the others.
      cases hx : item listItemRecordName x (caches.headD .fresh) with
      | error f => simp only [hx, reduceCtorEq] at h
      | ok p => cases hxs : serializeListLoop item xs caches.tail with
        | error f => simp only [hx, hxs, reduceCtorEq] at h
        | ok q =>
            simp only [hx, hxs, Except.ok.injEq, Prod.mk.injEq] at h
            have hfirst := hitem _ _ _ _ _ hx
            have hrest := ih _ _ _ hxs
            rw [← h.1, List.forall_mem_cons]
            exact ⟨hfirst, hrest⟩

/-- What holds of the records of all keys and of all values holds of all records
    of the map loop. -/
theorem serializeMapLoop_forall {κ ν : Type} (keyItem : Str → κ → NameCache → Serialized)
    (valueItem : Str → ν → NameCache → Serialized) (P : Record → Prop)
    (hkey : ∀ n x cache r cache', keyItem n x cache = .ok (r, cache') → P r)
    (hvalue : ∀ n x cache r cache', valueItem n x cache = .ok (r, cache') → P r)
    (entries : List (κ × ν)) (caches : List NameCache) (rs : List Record)
    (h : serializeMapLoop keyItem valueItem entries caches = .ok rs) : ∀ c ∈ rs, P c := by
  induction entries generalizing caches rs with
  | nil =>
      rw [serializeMapLoop, Except.ok.injEq] at h
      rw [← h]
      intro c hc
      exact absurd hc List.not_mem_nil
  | cons e entries ih =>
      rw [serializeMapLoop] at h
      -- The loop returned, so the key and the value did, and so did the rest.
      cases hk : keyItem mapItemKeyRecordName e.1 (caches.headD .fresh) with
      | error f => simp only [hk, reduceCtorEq] at h
      | ok p => cases hv : valueItem mapItemValueRecordName e.2 (caches.tail.headD .fresh) with
        | error f => simp only [hk, hv, reduceCtorEq] at h
        | ok q => cases hrest : serializeMapLoop keyItem valueItem entries caches.tail.tail with
          | error f => simp only [hk, hv, hrest, reduceCtorEq] at h
          | ok data =>
              simp only [hk, hv, hrest, Except.ok.injEq] at h
              have hkrecord := hkey _ _ _ _ _ hk
              have hvrecord := hvalue _ _ _ _ _ hv
              rw [← h, List.forall_mem_cons, List.forall_mem_cons]
              exact ⟨hkrecord, hvrecord, ih _ _ hrest⟩

/-- The records of an object are those of its clauses. -/
theorem serializeObject_ok (args : List MacroArg)
    (clauses : List Str → List NameCache → Except Fault (List Record × List NameCache))
    (cache : NameCache) (rs : List Record) (cache' : NameCache)
    (h : serializeObject args clauses cache = .ok (rs, cache')) :
    ∃ names caches', clauses names cache.inner = .ok (rs, caches') := by
  rw [serializeObject] at h
  split at h
  · simp only [reduceCtorEq] at h
  · rename_i result inner hclauses
    rw [Except.ok.injEq, Prod.mk.injEq] at h
    exact ⟨_, inner, h.1 ▸ hclauses⟩

/-- The record of a clause is that of the member, or a null record. -/
theorem serializeFieldclause_forall (arg : MacroArg) (name : Str) (cache : NameCache)
    (member : Serialized) (P : Record → Prop) (hnull : P ⟨.nullValue, name, .null⟩)
    (hmember : ∀ r cache', member = .ok (r, cache') → P r) (r : Record) (cache' : NameCache)
    (h : serializeFieldclause arg name cache member = .ok (r, cache')) : P r := by
  unfold serializeFieldclause at h
  split at h
  · rw [Except.ok.injEq, Prod.mk.injEq] at h
    rw [← h.1]
    exact hnull
  · exact hmember r cache' h

/-- A record without data has no nodes below it. -/
theorem everywhere_null (P : Record → Prop) (t : RecordType) (n : Str) (h : P ⟨t, n, .null⟩) :
    Record.Everywhere P ⟨t, n, .null⟩ := by
  refine .node _ h ?_
  intro rs hrs
  simp only [reduceCtorEq] at hrs

mutual
/-- No node of a tree the encoder emits has the tag of a byte array, whatever
    the type. -/
theorem serializeField_no_byteArray : ∀ {α : Type} (T : Ty α) (n : Str) (v : α) (cache : NameCache)
    (r : Record) (cache' : NameCache), serializeField T n v cache = .ok (r, cache') →
      r.Everywhere fun c => c.type ≠ .byteArray
  | _, .scalar s, n, v, cache, r, cache', h => by
      rw [serializeField, Except.ok.injEq, Prod.mk.injEq] at h
      rw [← h.1]
      -- The tag of a scalar is none of a byte array, and it has no children.
      refine .node _ ?_ ?_
      · exact recordType_ne_byteArray s
      · intro rs hrs
        simp only [reduceCtorEq] at hrs
  | _, .char, n, v, cache, r, cache', h => by
      rw [serializeField, Except.ok.injEq, Prod.mk.injEq] at h
      rw [← h.1]
      exact everywhere_null _ _ _ RecordType.noConfusion
  | _, .vector T, n, v, cache, r, cache', h => by
      rw [serializeField, serializeListField] at h
      split at h
      · -- The byte array branch does not compile.
        simp only [reduceCtorEq] at h
      · cases hloop : serializeListLoop (serializeField T) v cache.inner with
        | error f => simp only [hloop, reduceCtorEq] at h
        | ok p =>
            simp only [hloop, Except.ok.injEq, Prod.mk.injEq] at h
            have hitems := serializeListLoop_forall _ _ (serializeField_no_byteArray T) v
              cache.inner _ _ hloop
            rw [← h.1]
            exact .records _ _ _ RecordType.noConfusion hitems
  | _, @Ty.map _ _ _ K V, n, m, cache, r, cache', h => by
      rw [serializeField, serializeMapField] at h
      cases hloop : serializeMapLoop (serializeField K) (serializeField V) m.entries
        cache.inner with
      | error f => simp only [hloop, reduceCtorEq] at h
      | ok data =>
          simp only [hloop, Except.ok.injEq, Prod.mk.injEq] at h
          have hitems := serializeMapLoop_forall _ _ _ (serializeField_no_byteArray K)
            (serializeField_no_byteArray V) m.entries cache.inner _ hloop
          rw [← h.1]
          exact .records _ _ _ RecordType.noConfusion hitems
  | _, .cls F _, n, v, cache, r, cache', h => by
      rw [serializeField] at h
      cases hobj : serializeObject F.args (serializeClauses F v) cache with
      | error f => simp only [hobj, reduceCtorEq] at h
      | ok p =>
          simp only [hobj, Except.ok.injEq, Prod.mk.injEq] at h
          rcases serializeObject_ok _ _ _ _ _ hobj with ⟨names, caches', hclauses⟩
          have hmembers := serializeClauses_no_byteArray F v names cache.inner _ caches' hclauses
          rw [← h.1]
          exact .records _ _ _ RecordType.noConfusion hmembers
/-- The same for the members of a class. One that is hidden has a null record,
    which is no byte array either. -/
theorem serializeClauses_no_byteArray : ∀ {σ : Type} (F : Fields σ) (v : σ) (names : List Str)
    (caches : List NameCache) (rs : List Record) (caches' : List NameCache),
      serializeClauses F v names caches = .ok (rs, caches') →
        ∀ c ∈ rs, c.Everywhere fun c => c.type ≠ .byteArray
  | _, .nil, v, names, caches, rs, caches', h => by
      rw [serializeClauses, Except.ok.injEq, Prod.mk.injEq] at h
      rw [← h.1]
      intro c hc
      exact absurd hc List.not_mem_nil
  | _, .cons arg T F, v, [], caches, rs, caches', h => by
      simp only [serializeClauses, reduceCtorEq] at h
  | _, .cons arg T F, v, name :: names, caches, rs, caches', h => by
      rw [serializeClauses] at h
      cases hx : serializeFieldclause arg name (caches.headD .fresh)
        (serializeField T name v.1 (caches.headD .fresh)) with
      | error f => simp only [hx, reduceCtorEq] at h
      | ok p => cases hxs : serializeClauses F v.2 names caches.tail with
        | error f => simp only [hx, hxs, reduceCtorEq] at h
        | ok q =>
            simp only [hx, hxs, Except.ok.injEq, Prod.mk.injEq] at h
            -- A clause writes the member's record or a null record.
            have hfirst := serializeFieldclause_forall arg _ _ _ _
              (everywhere_null _ _ _ RecordType.noConfusion)
              (serializeField_no_byteArray T _ _ _) _ _ hx
            have hrest := serializeClauses_no_byteArray F _ _ _ _ _ hxs
            rw [← h.1, List.forall_mem_cons]
            exact ⟨hfirst, hrest⟩
end

/-! ### What is written instead -/

/-- A byte vector is written as a list with a null record for each
    character. -/
theorem serializeField_bytes (n : Str) (b : List UInt8) (cache : NameCache) :
    ∃ cache', serializeField (.vector .char) n b cache =
      .ok (⟨.list, n, .records (b.map fun _ => ⟨.nullValue, listItemRecordName, .null⟩)⟩,
        cache') := by
  -- A character is written the same way whatever is cached.
  have hchar : ∀ n x cache, True → ∃ cache',
      serializeField .char n x cache = .ok (encode .char n x, cache') ∧ True := by
    intro n x cache _
    exact ⟨cache, rfl, trivial⟩
  rcases serializeListLoop_eq (serializeField .char) (encode .char) (fun _ => True) trivial hchar b
    cache.inner (fun _ _ => trivial) with ⟨caches', hloop, _⟩
  refine ⟨.node none caches', ?_⟩
  rw [serializeField, serializeListField, Ty.isVectorChar, if_neg Bool.false_ne_true, hloop]
  rfl

/-- The bytes of a byte array record are read as a vector of records. -/
theorem deserializeField_byteArray (u : Uninit) (n : Str) (b w : List UInt8) :
    deserializeField u (.vector .char) w ⟨.byteArray, n, .byteArray b⟩ =
      undefinedAt .typeConfusion w := rfl

/-- What comes back from writing and reading is as long as it was, but holds
    characters that were never written. -/
theorem roundTrip_bytes (u : Uninit) (n : Str) (b : List UInt8) (cache : NameCache) :
    ∃ r cache', serializeField (.vector .char) n b cache = .ok (r, cache') ∧
      deserializeField u (.vector .char) [] r = .ok (b.map fun _ => u.char) := by
  rcases serializeField_bytes n b cache with ⟨cache', hser⟩
  exact ⟨_, cache', hser, deserializeField_encode u (.vector .char) n [] b fun _ _ => trivial⟩

/-- No byte vector survives, and not as a part of another value either: no byte
    array record is written anywhere. The branch that would write one asks
    whether the items are byte vectors, where it means the vector, and for such
    items it does not compile. -/
theorem bytes_never_survive (u : Uninit) (n : Str) (b : List UInt8) (cache : NameCache) :
    ¬ BytesSurvive u n b cache ∧
      ∀ {α : Type} (T : Ty α) (m : Str) (v : α) (outer : NameCache) (r : Record)
        (outer' : NameCache), serializeField T m v outer = .ok (r, outer') →
          r.Everywhere fun c => c.type ≠ .byteArray := by
  refine ⟨?_, serializeField_no_byteArray⟩
  rintro ⟨⟨cache', hser⟩, _⟩
  have hroot := (serializeField_no_byteArray _ _ _ _ _ _ hser).root
  exact hroot rfl

theorem bytes_never_survive_singleton :
    ¬ BytesSurvive .zeroed (str "field") (str "a") .fresh ∧
      (⟨.list, str "field", .records [⟨.nullValue, listItemRecordName, .null⟩]⟩ :
        Record).Everywhere fun c => c.type ≠ .byteArray := by
  have h := bytes_never_survive .zeroed (str "field") (str "a") .fresh
  exact ⟨h.1, h.2 (.vector .char) (str "field") (str "a") .fresh _ _ rfl⟩

/-- The byte vector with one character. -/
theorem not_bytesSurvive_singleton : ¬ BytesSurvive .zeroed (str "field") (str "a") .fresh := by
  rintro ⟨_, hdes⟩
  rw [deserializeField_byteArray] at hdes
  simp only [undefinedAt, reduceCtorEq] at hdes

end Nanoservices
