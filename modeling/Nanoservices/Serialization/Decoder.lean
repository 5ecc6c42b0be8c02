import Nanoservices.Serialization.Types

/-!
# The Decoder

`deserialize_field` and the functions it dispatches to, with the member
function that `NANOSERVICES2_MAKE_SERIALIZABLE` generates.

A decoder writes into an existing object. It may be left in the middle, by the
exception that the map decoder throws or by undefined behaviour, and the target
then holds whatever was written up to there. A result is therefore either the
target on return or a fault together with the target at the fault.

Items, keys and values are decoded into local objects first and reach the
target only when they are complete; the members of a class are decoded in
place. A member that is called like one of the variables of the generated
function is not decoded at all: the clause decodes into the variable, whose type
no branch of the dispatch recognises, and only moves the iterator on.

## Main definitions

* `Decoded`: The target on return, or a fault and the target at the fault.
* `deserializeFieldclause`: `__NANOSERVICES2_DESERIALIZE_FIELDCLAUSE__`.
* `deserializeListField`: `deserialize_list_field`.
* `deserializeMapField`: `deserialize_map_field`.
* `deserializeField`: `deserialize_field`.
* `serializerDeserialize`: `__nanoservices2_serializer_deserialize`.
-/

namespace Nanoservices

/-- What a decoder does to its target: the target on return, or why it did not
    return and the target as it was left. -/
abbrev Decoded (α : Type) := Except (Fault × α) α

/-- The call in `__NANOSERVICES2_DESERIALIZE_FIELDCLAUSE__`. `&(FIELDNAME)` points
    to the variable of that name, if there is one, and then no branch of the
    dispatch is taken and the member stays as it is. -/
def deserializeFieldclause {α : Type} (arg : MacroArg) (target : α) (member : Decoded α) :
    Decoded α :=
  if arg.shadowed deserializeLocals then .ok target else member

/-- Undefined behaviour before the target was touched. -/
def undefinedAt {α : Type} (u : Undefined) (target : α) : Decoded α :=
  .error (.undefined u, target)

/-- The loop of `deserialize_list_field`. An item that is not completed is not
    pushed, and the target has those before it. -/
def deserializeListLoop {α : Type} (t : α) (item : α → Record → Decoded α) :
    List α → List Record → Decoded (List α)
  | target, [] => .ok target
  | target, r :: rs => match item t r with
    | .error (f, _) => .error (f, target)
    -- `push_back`, onto whatever the vector held.
    | .ok x => deserializeListLoop t item (target ++ [x]) rs

/-- `deserialize_list_field<T>`, where `t` is what a freshly declared `T` holds,
    which is where every item is decoded into. -/
def deserializeListField {α : Type} (t : α) (item : α → Record → Decoded α) (target : List α)
    (record : Record) : Decoded (List α) :=
  match record.data.readRecords with
  | .error u => undefinedAt u target
  | .ok recordsVector => deserializeListLoop t item target recordsVector

/-- The message of the exception that `deserialize_map_field` throws, up to
    the NUL that ends it as a C string. -/
def endOfVectorMessage (fieldName : Str) : Str :=
  cString (str "Reached the end of the serialization record vector when deserializing map field "
    ++ fieldName)

/-- The loop of `deserialize_map_field`. The iterator is advanced between the
    key and the value, and that is where its end is checked a second time. -/
def deserializeMapLoop {κ ν : Type} [LinearOrder κ] (fieldName : Str) (k₀ : κ) (v₀ : ν)
    (keyItem : κ → Record → Decoded κ) (valueItem : ν → Record → Decoded ν) :
    SortedMap κ ν → List Record → Decoded (SortedMap κ ν)
  | target, [] => .ok target
  -- `++iter` after the key has reached the end.
  | target, [kr] => match keyItem k₀ kr with
    | .error (f, _) => .error (f, target)
    | .ok _ => .error (.nsException (endOfVectorMessage fieldName), target)
  | target, kr :: vr :: rs => match keyItem k₀ kr with
    | .error (f, _) => .error (f, target)
    | .ok k => match valueItem v₀ vr with
      | .error (f, _) => .error (f, target)
      -- `operator[]` and an assignment: an entry under the key is overwritten.
      | .ok v => deserializeMapLoop fieldName k₀ v₀ keyItem valueItem (target.insert k v) rs

/-- `deserialize_map_field<K, V>`, where `k₀` and `v₀` are a freshly declared
    key and value. -/
def deserializeMapField {κ ν : Type} [LinearOrder κ] (k₀ : κ) (v₀ : ν)
    (keyItem : κ → Record → Decoded κ) (valueItem : ν → Record → Decoded ν)
    (target : SortedMap κ ν) (record : Record) : Decoded (SortedMap κ ν) :=
  match record.data.readRecords with
  | .error u => undefinedAt u target
  | .ok recordsVector =>
    deserializeMapLoop record.fieldName k₀ v₀ keyItem valueItem target recordsVector

mutual
/-- `deserialize_field<T>`. -/
def deserializeField (u : Uninit) : {α : Type} → Ty α → α → Record → Decoded α
  | _, .scalar s, target, record => match record.data.readScalar s with
    | .error e => undefinedAt e target
    | .ok x => .ok x
  -- No branch of the dispatch is taken.
  | _, .char, target, _ => .ok target
  -- Neither the tag nor the old contents are looked at.
  | _, .vector T, target, record =>
    deserializeListField (T.defaultInit u) (deserializeField u T) target record
  | _, @Ty.map _ _ _ K V, target, record =>
    deserializeMapField (K.defaultInit u) (V.defaultInit u) (deserializeField u K)
      (deserializeField u V) target record
  | _, .cls F _, target, record => match record.data.readRecords with
    | .error e => undefinedAt e target
    | .ok serializerRecords => deserializeClauses u F target serializerRecords
/-- `__NANOSERVICES2_DESERIALIZE_FIELDCLAUSE__` for each member in turn, with
    `serializerRecordsIter` as what is left of the record vector. -/
def deserializeClauses (u : Uninit) : {σ : Type} → Fields σ → σ → List Record → Decoded σ
  | _, .nil, target, _ => .ok target
  -- `*serializerRecordsIter` at the end of the vector.
  | _, .cons _ _ _, target, [] => undefinedAt .pastTheEnd target
  | _, .cons arg T F, target, r :: rs =>
    match deserializeFieldclause arg target.1 (deserializeField u T target.1 r) with
    | .error (f, x) => .error (f, (x, target.2))
    -- The member is written for good before the next one is decoded.
    | .ok x => match deserializeClauses u F target.2 rs with
      | .error (f, xs) => .error (f, (x, xs))
      | .ok xs => .ok (x, xs)
end

/-- A member that no variable hides is what its clause is about. -/
theorem deserializeFieldclause_eq {α : Type} (arg : MacroArg)
    (h : arg.shadowed deserializeLocals = false) (target : α) (member : Decoded α) :
    deserializeFieldclause arg target member = member := by
  rw [deserializeFieldclause, h, if_neg Bool.false_ne_true]

/-- A member that a variable hides stays as it is. -/
theorem deserializeFieldclause_shadowed {α : Type} (arg : MacroArg)
    (h : arg.shadowed deserializeLocals = true) (target : α) (member : Decoded α) :
    deserializeFieldclause arg target member = .ok target := by
  rw [deserializeFieldclause, h, if_pos rfl]

/-- If decoding the member returns so does its clause. -/
theorem deserializeFieldclause_ok {α : Type} (arg : MacroArg) (target x : α) :
    deserializeFieldclause arg target (.ok x) =
      .ok (if arg.shadowed deserializeLocals then target else x) := by
  unfold deserializeFieldclause
  split
  · rfl
  · rfl

/-- `__nanoservices2_serializer_deserialize` of a class with these members, on
    the records that it is given. -/
def serializerDeserialize (u : Uninit) {σ : Type} (F : Fields σ) (target : σ)
    (serializerRecords : List Record) : Decoded σ :=
  deserializeClauses u F target serializerRecords

end Nanoservices
