import Mathlib.Algebra.Group.Even
import Nanoservices.Core.Fault

/-!
# Serialization Records

The record tree of `core/serialization/serialization.h`. A record carries a
tag, a field name and a `shared_ptr<void>`; what the pointer leads to is `Data`,
which remembers the type the object was made with. A `static_pointer_cast`
followed by a dereference is a read under a type of the reader's choosing, and
`readScalar` and `readRecords` are the two that the program does. Neither
looks at the tag.

`Announces` is the convention that ties the tag to the object: it is what the
encoder keeps and what a reader of the tag may rely on. Three tags announce
the same object, a vector of records, so the convention does not determine the
tag.

## Main definitions

* `RecordType`: The tags.
* `Scalar`: The types that are stored as one object.
* `Data`: The object a record points to.
* `Record`: A record.
* `Data.readScalar`, `Data.readRecords`: Casting the pointer and following it.
* `RecordType.Announces`: The object is of the kind the tag names.
* `Record.Everywhere`, `Record.Somewhere`: At all nodes and at some node.
* `Record.TruncatedMap`: A map node that ends after a key.

## Theorems

* `readScalar_eq_ok_iff`, `readRecords_eq_ok_iff`: When a read succeeds.
* `recordType_injective`, `recordType_ne_nullValue`: The tags of the scalars.
* `announces_scalar`, `announces_records`: What follows about the data from an
  announcing tag.
* `somewhere_iff`: A node is the root or below a child.
-/

namespace Nanoservices

/-- `record_type`. -/
inductive RecordType
  | nullValue
  | byteArray
  | string
  | signedInt8
  | unsignedInt8
  | signedInt16
  | unsignedInt16
  | signedInt32
  | unsignedInt32
  | signedInt64
  | unsignedInt64
  | float32
  | float64
  | serializableClass
  | list
  | map
  deriving DecidableEq, Repr

/-- The types a field can have that are stored as one object. -/
inductive Scalar
  | string
  | int8
  | uInt8
  | int16
  | uInt16
  | int32
  | uInt32
  | int64
  | uInt64
  | float
  | double
  deriving DecidableEq, Repr

/-- The values of a scalar type. The floating-point ones are opaque: only
    their object representation is stored and copied. -/
abbrev Scalar.Carrier : Scalar → Type
  | .string => Str
  | .int8 => Int8
  | .uInt8 => UInt8
  | .int16 => Int16
  | .uInt16 => UInt16
  | .int32 => Int32
  | .uInt32 => UInt32
  | .int64 => Int64
  | .uInt64 => UInt64
  | .float => BitVec 32
  | .double => BitVec 64

/-- The tag `serialize_field` gives a scalar. -/
def Scalar.recordType : Scalar → RecordType
  | .string => .string
  | .int8 => .signedInt8
  | .uInt8 => .unsignedInt8
  | .int16 => .signedInt16
  | .uInt16 => .unsignedInt16
  | .int32 => .signedInt32
  | .uInt32 => .unsignedInt32
  | .int64 => .signedInt64
  | .uInt64 => .unsignedInt64
  | .float => .float32
  | .double => .float64

/-- The object behind a `shared_ptr<void>`, with the type it was made with. -/
inductive Data (ρ : Type)
  /-- The null pointer. -/
  | null
  /-- `std::vector<char>` -/
  | byteArray (bytes : List UInt8)
  | scalar (s : Scalar) (x : s.Carrier)
  /-- `std::vector<std::shared_ptr<serialization_record>>` -/
  | records (rs : List ρ)

/-- `serialization_record`. The pointers to the field name and to the child
    records are never null here: a record is what they lead to. The encoder
    makes no others, and a tree with a null name is decoded like one with a
    name until the name is formatted, for an exception or for the trace. -/
structure Record where
  type : RecordType
  fieldName : Str
  data : Data Record

/-- `*static_pointer_cast<T>(data)` for a scalar type. A read under another
    type than the one the object was made with counts as undefined, also where
    C++ gives it a meaning: as the signed or unsigned counterpart, or as a
    byte. -/
def Data.readScalar {ρ : Type} (s : Scalar) : Data ρ → Except Undefined s.Carrier
  | .null => .error .nullDereference
  | .byteArray _ => .error .typeConfusion
  -- The cast is not checked: another object is read as if it were an `s`.
  | .scalar s' x => if h : s' = s then .ok (h ▸ x) else .error .typeConfusion
  | .records _ => .error .typeConfusion

/-- The vector behind `static_pointer_cast<vector<shared_ptr<...>>>(data)`. -/
def Data.readRecords {ρ : Type} : Data ρ → Except Undefined (List ρ)
  | .null => .error .nullDereference
  | .byteArray _ => .error .typeConfusion
  | .scalar _ _ => .error .typeConfusion
  | .records rs => .ok rs

/-- An object is read as what it is. -/
@[simp] theorem readScalar_scalar {ρ : Type} (s : Scalar) (x : s.Carrier) :
    (Data.scalar s x : Data ρ).readScalar s = .ok x := by
  simp only [Data.readScalar, dif_pos]

/-- So is a vector of records. -/
@[simp] theorem readRecords_records {ρ : Type} (rs : List ρ) :
    (Data.records rs).readRecords = .ok rs := rfl

/-- A scalar read succeeds on an object of that scalar type and on no other. -/
theorem readScalar_eq_ok_iff {ρ : Type} (s : Scalar) (d : Data ρ) (x : s.Carrier) :
    d.readScalar s = .ok x ↔ d = .scalar s x := by
  constructor
  · intro h
    cases d with
    | null => simp only [Data.readScalar, reduceCtorEq] at h
    | byteArray bytes => simp only [Data.readScalar, reduceCtorEq] at h
    | records rs => simp only [Data.readScalar, reduceCtorEq] at h
    | scalar s' y =>
        -- The type of the object and that of the read agree, or nothing is
        -- read.
        by_cases hs : s' = s
        · subst hs
          rw [readScalar_scalar, Except.ok.injEq] at h
          rw [h]
        · simp only [Data.readScalar, dif_neg hs, reduceCtorEq] at h
  · rintro rfl
    exact readScalar_scalar s x

/-- A read of a record vector succeeds on a record vector and nothing else. -/
theorem readRecords_eq_ok_iff {ρ : Type} (d : Data ρ) (rs : List ρ) :
    d.readRecords = .ok rs ↔ d = .records rs := by
  constructor
  · intro h
    cases d with
    | null => simp only [Data.readRecords, reduceCtorEq] at h
    | byteArray bytes => simp only [Data.readRecords, reduceCtorEq] at h
    | scalar s x => simp only [Data.readRecords, reduceCtorEq] at h
    | records rs' =>
        rw [readRecords_records, Except.ok.injEq] at h
        rw [h]
  · rintro rfl
    exact readRecords_records rs

/-- The object is of the kind the tag names. -/
def RecordType.Announces {ρ : Type} (t : RecordType) : Data ρ → Prop
  | .null => t = .nullValue
  | .byteArray _ => t = .byteArray
  | .scalar s _ => t = s.recordType
  | .records _ => t = .serializableClass ∨ t = .list ∨ t = .map

/-- The tag announces a vector of records. -/
def RecordType.isContainer (t : RecordType) : Bool :=
  t == .serializableClass || t == .list || t == .map

/-- No two scalar types share a tag. -/
theorem recordType_injective (s s' : Scalar) (h : s.recordType = s'.recordType) : s = s' := by
  cases s <;> cases s' <;> first | rfl | exact RecordType.noConfusion h

/-- No scalar type has the tag of a null record. -/
theorem recordType_ne_nullValue (s : Scalar) : s.recordType ≠ .nullValue := by
  cases s <;> exact RecordType.noConfusion

/-- Nor has one the tag of a byte array. -/
theorem recordType_ne_byteArray (s : Scalar) : s.recordType ≠ .byteArray := by
  cases s <;> exact RecordType.noConfusion

/-- A scalar's tag announces an object of that scalar type. -/
theorem announces_scalar {ρ : Type} (t : RecordType) (s : Scalar) (d : Data ρ)
    (h : t.Announces d) (ht : t = s.recordType) : ∃ x, d = .scalar s x := by
  rw [ht] at h
  cases d with
  | null => exact absurd h (recordType_ne_nullValue s)
  | byteArray bytes => exact absurd h (recordType_ne_byteArray s)
  | records rs => cases s <;> simp only [RecordType.Announces, Scalar.recordType, reduceCtorEq,
      or_self] at h
  | scalar s' x =>
      have hs := recordType_injective s s' h
      subst hs
      exact ⟨x, rfl⟩

/-- A container's tag announces a vector of records. -/
theorem announces_records {ρ : Type} (t : RecordType) (d : Data ρ) (h : t.Announces d)
    (ht : t.isContainer = true) : ∃ rs, d = .records rs := by
  -- All other objects have tags that are no container's.
  cases d with
  | records rs => exact ⟨rs, rfl⟩
  | null =>
      rw [show t = .nullValue from h] at ht
      exact Bool.noConfusion ht
  | byteArray bytes =>
      rw [show t = .byteArray from h] at ht
      exact Bool.noConfusion ht
  | scalar s x =>
      rw [show t = s.recordType from h] at ht
      cases s <;> exact Bool.noConfusion ht

namespace Record

/-- The record under another field name. -/
def named (r : Record) (n : Str) : Record := { r with fieldName := n }

/-- The record with its children changed, if it has any. -/
def mapRecords (f : List Record → List Record) (r : Record) : Record :=
  match r.data with
  | .records rs => { r with data := .records (f rs) }
  | _ => r

/-- What `mapRecords` does to a record with children. -/
theorem mapRecords_of_records (f : List Record → List Record) (r : Record) (rs : List Record)
    (hr : r.data = .records rs) :
    r.mapRecords f = ⟨r.type, r.fieldName, .records (f rs)⟩ := by
  rw [mapRecords, hr]

/-- It changes nothing if the children stay the same. -/
theorem mapRecords_eq_self (f : List Record → List Record) (r : Record) (rs : List Record)
    (hr : r.data = .records rs) (hf : f rs = rs) : r.mapRecords f = r := by
  cases r with
  | mk t n d =>
      rw [mapRecords_of_records f _ rs hr, hf, ← hr]

/-- The name of the field is not touched. -/
theorem mapRecords_fieldName (f : List Record → List Record) (r : Record) :
    (r.mapRecords f).fieldName = r.fieldName := by
  unfold mapRecords
  split
  · rfl
  · rfl

/-- A record under the name that it has. -/
theorem named_self (r : Record) : r.named r.fieldName = r := by
  cases r with
  | mk t n d => rfl

/-- The property holds at every node of the tree. -/
inductive Everywhere (P : Record → Prop) : Record → Prop
  | node (r : Record) (here : P r)
      (below : ∀ rs, r.data = .records rs → ∀ c ∈ rs, Everywhere P c) : Everywhere P r

/-- What holds everywhere holds at the root. -/
theorem Everywhere.root {P : Record → Prop} {r : Record} (h : Everywhere P r) : P r := by
  cases h with
  | node _ here below => exact here

/-- It also holds everywhere below a child. -/
theorem Everywhere.child {P : Record → Prop} {r : Record} (h : Everywhere P r) (rs : List Record)
    (hr : r.data = .records rs) : ∀ c ∈ rs, Everywhere P c := by
  cases h with
  | node _ here below => exact below rs hr

/-- What holds at a node and everywhere below its children holds everywhere. -/
theorem Everywhere.records {P : Record → Prop} (t : RecordType) (n : Str) (rs : List Record)
    (here : P ⟨t, n, .records rs⟩) (below : ∀ c ∈ rs, Everywhere P c) :
    Everywhere P ⟨t, n, .records rs⟩ := by
  refine .node _ here ?_
  intro rs' hrs
  rw [← Data.records.inj hrs]
  exact below

/-- The property holds at some node of the tree. -/
inductive Somewhere (P : Record → Prop) : Record → Prop
  | here (r : Record) (h : P r) : Somewhere P r
  | deeper (r : Record) (rs : List Record) (hr : r.data = .records rs) (c : Record) (hc : c ∈ rs)
      (h : Somewhere P c) : Somewhere P r

/-- A map node with an odd number of children: it ends after a key. -/
def TruncatedMap (r : Record) : Prop :=
  r.type = .map ∧ ∃ rs, r.data = .records rs ∧ ¬ Even rs.length

/-- In a tree with children it is the root or in one of them. -/
theorem somewhere_iff (P : Record → Prop) (r : Record) (rs : List Record)
    (hr : r.data = .records rs) : Somewhere P r ↔ P r ∨ ∃ c ∈ rs, Somewhere P c := by
  constructor
  · intro h
    cases h with
    | here _ h => exact Or.inl h
    | deeper _ rs' hr' c hc h =>
        rw [hr, Data.records.injEq] at hr'
        exact Or.inr ⟨c, hr' ▸ hc, h⟩
  · rintro (h | ⟨c, hc, h⟩)
    · exact Somewhere.here r h
    · exact Somewhere.deeper r rs hr c hc h

/-- A node without the property has no child with it below. -/
theorem not_somewhere_child {P : Record → Prop} (r : Record) (h : ¬ Somewhere P r)
    (rs : List Record) (hr : r.data = .records rs) : ∀ c ∈ rs, ¬ Somewhere P c := by
  intro c hc hs
  exact h (.deeper r rs hr c hc hs)

/-- A scalar is its own only node. -/
theorem somewhere_scalar (P : Record → Prop) (r : Record) (s : Scalar) (x : s.Carrier)
    (hr : r.data = .scalar s x) : Somewhere P r ↔ P r := by
  constructor
  · intro h
    cases h with
    | here _ h => exact h
    | deeper _ rs hr' =>
        rw [hr] at hr'
        exact absurd hr' (by simp only [reduceCtorEq, not_false_eq_true])
  · exact Somewhere.here r

end Record

end Nanoservices
