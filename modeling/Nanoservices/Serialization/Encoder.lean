import Nanoservices.Serialization.Types

/-!
# The Encoder

`serialize_field` and the functions it dispatches to, with the member function
that `NANOSERVICES2_MAKE_SERIALIZABLE` generates.

A class learns the names of its members at run time. The first call splits the
stringized argument list and caches the names in the object
(`__nanoservices2_fieldNamesVector`), and every call walks the cached vector in
lockstep with the macro expansion. Nothing in the code ties the length of that
vector to the number of members, so the walk is modelled with an iterator that
can be found at the end.

The clauses name the members from inside the generated function. A member that
is called like one of the function's local variables is therefore not reached:
the clause is about the variable, for whose type the dispatch has no branch but
the last.

The cache is mutable state of the object and of every object inside it. It is
kept apart from the values, in a `NameCache` of the same shape: the items of a
vector are serialized in place and keep their caches, while the keys and values
of a map are copied first, so what is cached in the copies is lost with them.

## Main definitions

* `NameCache`: The cached names of an object and of the objects in it.
* `serializeFieldclause`: `__NANOSERVICES2_SERIALIZE_FIELDCLAUSE__`.
* `serializeListField`: `serialize_list_field`.
* `serializeMapField`: `serialize_map_field`.
* `serializeObject`: The body of `__nanoservices2_serializer_serialize`.
* `serializeField`: `serialize_field`.
* `serializerSerialize`: `__nanoservices2_serializer_serialize`.
-/

namespace Nanoservices

/-- `_map_item_key_record_name`, the name of every key of a map. -/
def mapItemKeyRecordName : Str := str "nanoservices::serializer::mapKey"

/-- `_map_item_value_record_name`, the name of every value of a map. -/
def mapItemValueRecordName : Str := str "nanoservices::serializer::mapValue"

/-- `_list_item_record_name`, the name of every item of a vector. -/
def listItemRecordName : Str := str "nanoservices::serializer::listItem"

/-- The cached `__nanoservices2_fieldNamesVector` of an object, and the caches
    of the objects in it. An object that is not of a class has no names of its
    own. -/
inductive NameCache
  | node (fieldNamesVector : Option (List Str)) (inner : List NameCache)

namespace NameCache

/-- Nothing has been serialized yet, neither the object nor any object in it. -/
def fresh : NameCache := .node none []

/-- The object's own names. -/
def own : NameCache → Option (List Str)
  | .node names _ => names

/-- The caches of the objects inside, in the order in which they are serialized.
    Objects that have come since then are not in it. -/
def inner : NameCache → List NameCache
  | .node _ caches => caches

/-- The object's own names are what its node says. -/
@[simp] theorem own_node (names : Option (List Str)) (caches : List NameCache) :
    (node names caches).own = names := rfl

end NameCache

/-- The result of serializing: the record, and the caches afterwards. -/
abbrev Serialized := Except Fault (Record × NameCache)

/-- The call in `__NANOSERVICES2_SERIALIZE_FIELDCLAUSE__`. `(FIELDNAME)` is the
    local variable of that name, if there is one, and the member otherwise. A
    variable is a pointer or an iterator, so the last branch of the dispatch is
    taken for it: a tag and no data. -/
def serializeFieldclause (arg : MacroArg) (fieldName : Str) (cache : NameCache)
    (member : Serialized) : Serialized :=
  if arg.shadowed serializeLocals then .ok (⟨.nullValue, fieldName, .null⟩, cache) else member

/-- The loop of `serialize_list_field`. Each item is serialized in place, with
    what it has cached itself. -/
def serializeListLoop {α : Type} (item : Str → α → NameCache → Serialized) :
    List α → List NameCache → Except Fault (List Record × List NameCache)
  | [], _ => .ok ([], [])
  | x :: xs, caches =>
    match item listItemRecordName x (caches.headD .fresh) with
    | .error f => .error f
    | .ok (r, cache) => match serializeListLoop item xs caches.tail with
      | .error f => .error f
      | .ok (rs, caches') => .ok (r :: rs, cache :: caches')

/-- `serialize_list_field<T>`. The byte array branch is taken when the items
    are themselves `std::vector<char>`, and then makes a `std::vector<char>`
    from a vector of vectors, which does not compile. -/
def serializeListField {α : Type} (isVectorChar : Bool) (item : Str → α → NameCache → Serialized)
    (fieldName : Str) (fieldValue : List α) (cache : NameCache) : Serialized :=
  if isVectorChar then .error .illFormed
  else match serializeListLoop item fieldValue cache.inner with
    | .error f => .error f
    | .ok (data, inner) => .ok (⟨.list, fieldName, .records data⟩, .node none inner)

/-- The loop of `serialize_map_field`. Keys and values are copied before they
    are serialized, so the caches in the map stay as they are. -/
def serializeMapLoop {κ ν : Type} (keyItem : Str → κ → NameCache → Serialized)
    (valueItem : Str → ν → NameCache → Serialized) :
    List (κ × ν) → List NameCache → Except Fault (List Record)
  | [], _ => .ok []
  | (k, v) :: entries, caches =>
    match keyItem mapItemKeyRecordName k (caches.headD .fresh) with
    | .error f => .error f
    | .ok (keyRecord, _) =>
      match valueItem mapItemValueRecordName v (caches.tail.headD .fresh) with
      | .error f => .error f
      | .ok (valueRecord, _) =>
        match serializeMapLoop keyItem valueItem entries caches.tail.tail with
        | .error f => .error f
        | .ok data => .ok (keyRecord :: valueRecord :: data)

/-- `serialize_map_field<K, V>`. The entries come in the order of the keys,
    which is that of the map. -/
def serializeMapField {κ ν : Type} [LinearOrder κ] (keyItem : Str → κ → NameCache → Serialized)
    (valueItem : Str → ν → NameCache → Serialized) (fieldName : Str)
    (fieldValue : SortedMap κ ν) (cache : NameCache) : Serialized :=
  match serializeMapLoop keyItem valueItem fieldValue.entries cache.inner with
  | .error f => .error f
  | .ok data => .ok (⟨.map, fieldName, .records data⟩, cache)

/-- The body of `__nanoservices2_serializer_serialize`. `clauses` is the
    expansion of `DO_FOREACH` over the arguments, which is started at the
    beginning of the names vector. -/
def serializeObject (args : List MacroArg)
    (clauses : List Str → List NameCache → Except Fault (List Record × List NameCache))
    (cache : NameCache) : Except Fault (List Record × NameCache) :=
  let names := match cache.own with
    | some names => names
    -- The first call on this object.
    | none => splitString (stringize args) comma true false
  match clauses names cache.inner with
  | .error f => .error f
  | .ok (result, inner) => .ok (result, .node (some names) inner)

mutual
/-- `serialize_field<T>`. -/
def serializeField : {α : Type} → Ty α → Str → α → NameCache → Serialized
  | _, .scalar s, fieldName, fieldValue, cache =>
    .ok (⟨s.recordType, fieldName, .scalar s fieldValue⟩, cache)
  -- The last branch of the dispatch: a tag and no data.
  | _, .char, fieldName, _, cache => .ok (⟨.nullValue, fieldName, .null⟩, cache)
  | _, .vector T, fieldName, fieldValue, cache =>
    serializeListField T.isVectorChar (serializeField T) fieldName fieldValue cache
  | _, @Ty.map _ _ _ K V, fieldName, fieldValue, cache =>
    serializeMapField (serializeField K) (serializeField V) fieldName fieldValue cache
  | _, .cls F _, fieldName, fieldValue, cache =>
    match serializeObject F.args (serializeClauses F fieldValue) cache with
    | .error f => .error f
    | .ok (records, cache') => .ok (⟨.serializableClass, fieldName, .records records⟩, cache')
/-- `__NANOSERVICES2_SERIALIZE_FIELDCLAUSE__` for each member in turn, with
    `fieldNamesIter` as what is left of the names vector. -/
def serializeClauses : {σ : Type} → Fields σ → σ → List Str → List NameCache →
    Except Fault (List Record × List NameCache)
  | _, .nil, _, _, _ => .ok ([], [])
  -- `*fieldNamesIter` at the end of the names vector.
  | _, .cons _ _ _, _, [], _ => .error (.undefined .pastTheEnd)
  | _, .cons arg T F, v, name :: names, caches =>
    match serializeFieldclause arg name (caches.headD .fresh)
      (serializeField T name v.1 (caches.headD .fresh)) with
    | .error f => .error f
    | .ok (r, cache) => match serializeClauses F v.2 names caches.tail with
      | .error f => .error f
      | .ok (rs, caches') => .ok (r :: rs, cache :: caches')
end

/-- `__nanoservices2_serializer_serialize` of a class with these members: the
    records of the members, and the names that are cached now. -/
def serializerSerialize {σ : Type} (F : Fields σ) (v : σ) (cache : NameCache) :
    Except Fault (List Record × NameCache) :=
  serializeObject F.args (serializeClauses F v) cache

end Nanoservices
