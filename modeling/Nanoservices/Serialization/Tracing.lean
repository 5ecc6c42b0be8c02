import Nanoservices.Logging.Logger
import Nanoservices.Serialization.Overlay

/-!
# The Trace of a Serialization

With the logger at level `trace`, `serialize_field` and `deserialize_field` log
a line for every field they come to, and the demangling of the type name logs
one more. The two functions have the same text, and the decoder takes the name
of the pointer type where the encoder takes the name of the type.

The encoder and the decoder are given here once more, with their logs. Their
results are those without logging, whatever the level of the logger and
whatever becomes of the type names (`trace_transparent`). Below the level
`trace` there are no lines, and at it there is the one for the first field
(`log_traceField_eq_nil_iff`).

A member that is called like a local variable of the function the macro
generated is announced as the variable, with the type that this one has.

## Main definitions

* `Tracer`: The level of the logger, and the names of types.
* `Tracer.announce`: The first lines of both functions.
* `traceFieldclause`, `traceDecodeFieldclause`: The clause of a member.
* `traceField`, `traceClauses`: The encoder with its log.
* `traceDecodeField`, `traceDecodeClauses`: The decoder with its log.

## Theorems

* `traceField_result`, `traceDecodeField_result`: The results without the logs.
* `trace_transparent`: Logging changes nothing.
* `log_announce_eq_nil_iff`: Which loggers announce fields.
* `traceField_silent`, `traceDecodeField_silent`: Who logs nothing.
* `log_traceField_eq_nil_iff`, `log_traceDecodeField_eq_nil_iff`: The same as a
  condition on the logger.
-/

namespace Nanoservices

open Interleave Logging

/-- The level of the logger, `abi::__cxa_demangle`, and the names that `typeid`
    has for a type and for the pointer to it: the type of a field, and that of a
    local variable of the functions that the macro generates. -/
structure Tracer where
  threshold : LevelEnum
  cxaDemangle : Str → Int × Str
  typeName : {α : Type} → Ty α → Str
  pointerName : {α : Type} → Ty α → Str
  localTypeName : Str → Str
  localPointerName : Str → Str

/-- What `serialize_field` and `deserialize_field` begin with: at the level
    `trace` a line with the name of the type, demangled, and of the field. -/
def Tracer.announce (t : Tracer) (typeidName fieldName : Str) : Logged Line Fault Unit :=
  if shouldLog t.threshold .trace then
    (demangleTypeName t.threshold t.cxaDemangle typeidName false).follow id fun fieldTypeName =>
      ⟨logAt t.threshold .trace (str "Serializing an instance of " ++ fieldTypeName ++
        str ". Field name: " ++ fieldName), .ok ()⟩
  else .done ()

/-! ### The encoder -/

/-- The call in `__NANOSERVICES2_SERIALIZE_FIELDCLAUSE__`. A local variable is
    announced with its own type. -/
def traceFieldclause (t : Tracer) (arg : MacroArg) (fieldName : Str) (cache : NameCache)
    (member : Logged Line Fault (Record × NameCache)) : Logged Line Fault (Record × NameCache) :=
  if arg.shadowed serializeLocals then
    (t.announce (t.localTypeName arg.name.chars) fieldName).follow id fun _ =>
      .done (⟨.nullValue, fieldName, .null⟩, cache)
  else member

/-- The loop of `serialize_list_field`, with the log of each item behind that of
    the one before. -/
def traceListLoop {α : Type} (item : Str → α → NameCache → Logged Line Fault (Record × NameCache)) :
    List α → List NameCache → Logged Line Fault (List Record × List NameCache)
  | [], _ => .done ([], [])
  | x :: xs, caches =>
    (item listItemRecordName x (caches.headD .fresh)).follow id fun (r, cache) =>
      (traceListLoop item xs caches.tail).follow id fun (rs, caches') =>
        .done (r :: rs, cache :: caches')

/-- The loop of `serialize_map_field`, with the logs of the key and the value of
    each entry. -/
def traceMapLoop {κ ν : Type}
    (keyItem : Str → κ → NameCache → Logged Line Fault (Record × NameCache))
    (valueItem : Str → ν → NameCache → Logged Line Fault (Record × NameCache)) :
    List (κ × ν) → List NameCache → Logged Line Fault (List Record)
  | [], _ => .done []
  | (k, v) :: entries, caches =>
    (keyItem mapItemKeyRecordName k (caches.headD .fresh)).follow id fun (keyRecord, _) =>
      (valueItem mapItemValueRecordName v (caches.tail.headD .fresh)).follow id
        fun (valueRecord, _) =>
          (traceMapLoop keyItem valueItem entries caches.tail.tail).follow id fun data =>
            .done (keyRecord :: valueRecord :: data)

mutual
/-- `serialize_field<T>` with its log. The line of a field comes before those of
    the fields in it. -/
def traceField (t : Tracer) : {α : Type} → Ty α → Str → α → NameCache →
    Logged Line Fault (Record × NameCache)
  | _, .scalar s, fieldName, fieldValue, cache =>
    (t.announce (t.typeName (.scalar s)) fieldName).follow id fun _ =>
      .done (⟨s.recordType, fieldName, .scalar s fieldValue⟩, cache)
  | _, .char, fieldName, _, cache =>
    (t.announce (t.typeName .char) fieldName).follow id fun _ =>
      .done (⟨.nullValue, fieldName, .null⟩, cache)
  | _, .vector T, fieldName, fieldValue, cache =>
    (t.announce (t.typeName (.vector T)) fieldName).follow id fun _ =>
      if T.isVectorChar then .fail .illFormed
      else (traceListLoop (traceField t T) fieldValue cache.inner).follow id fun (data, inner) =>
        .done (⟨.list, fieldName, .records data⟩, .node none inner)
  | _, @Ty.map _ _ _ K V, fieldName, fieldValue, cache =>
    (t.announce (t.typeName (.map K V)) fieldName).follow id fun _ =>
      (traceMapLoop (traceField t K) (traceField t V) fieldValue.entries cache.inner).follow id
        fun data => .done (⟨.map, fieldName, .records data⟩, cache)
  | _, .cls F ctor, fieldName, fieldValue, cache =>
    (t.announce (t.typeName (.cls F ctor)) fieldName).follow id fun _ =>
      let names := match cache.own with
        | some names => names
        | none => splitString (stringize F.args) comma true false
      (traceClauses t F fieldValue names cache.inner).follow id fun (records, inner) =>
        .done (⟨.serializableClass, fieldName, .records records⟩, .node (some names) inner)
/-- `__NANOSERVICES2_SERIALIZE_FIELDCLAUSE__` for each member in turn. -/
def traceClauses (t : Tracer) : {σ : Type} → Fields σ → σ → List Str → List NameCache →
    Logged Line Fault (List Record × List NameCache)
  | _, .nil, _, _, _ => .done ([], [])
  | _, .cons _ _ _, _, [], _ => .fail (.undefined .pastTheEnd)
  | _, .cons arg T F, v, name :: names, caches =>
    (traceFieldclause t arg name (caches.headD .fresh)
      (traceField t T name v.1 (caches.headD .fresh))).follow id fun (r, cache) =>
        (traceClauses t F v.2 names caches.tail).follow id fun (rs, caches') =>
          .done (r :: rs, cache :: caches')
end

/-! ### The decoder -/

/-- What a decoder logs and does to its target. The log is kept where it fails. -/
abbrev TracedDecode (α : Type) := Logged Line (Fault × α) α

/-- The call in `__NANOSERVICES2_DESERIALIZE_FIELDCLAUSE__`. A local variable is
    announced with the type of the pointer to it, under the name in the record. -/
def traceDecodeFieldclause (t : Tracer) {α : Type} (arg : MacroArg) (target : α) (record : Record)
    (member : TracedDecode α) : TracedDecode α :=
  if arg.shadowed deserializeLocals then
    (t.announce (t.localPointerName arg.name.chars) record.fieldName).follow (fun f => (f, target))
      fun _ => .done target
  else member

/-- The loop of `deserialize_list_field`, with the log of each item. -/
def traceDecodeListLoop {α : Type} (x₀ : α) (item : α → Record → TracedDecode α) :
    List α → List Record → TracedDecode (List α)
  | target, [] => .done target
  | target, r :: rs => (item x₀ r).follow (fun e => (e.1, target)) fun x =>
      traceDecodeListLoop x₀ item (target ++ [x]) rs

/-- The loop of `deserialize_map_field`, with the logs of keys and values. The
    exception itself is not logged. -/
def traceDecodeMapLoop {κ ν : Type} [LinearOrder κ] (fieldName : Str) (k₀ : κ) (v₀ : ν)
    (keyItem : κ → Record → TracedDecode κ) (valueItem : ν → Record → TracedDecode ν) :
    SortedMap κ ν → List Record → TracedDecode (SortedMap κ ν)
  | target, [] => .done target
  | target, [kr] => (keyItem k₀ kr).follow (fun e => (e.1, target)) fun _ =>
      .fail (.nsException (endOfVectorMessage fieldName), target)
  | target, kr :: vr :: rs => (keyItem k₀ kr).follow (fun e => (e.1, target)) fun k =>
      (valueItem v₀ vr).follow (fun e => (e.1, target)) fun v =>
        traceDecodeMapLoop fieldName k₀ v₀ keyItem valueItem (target.insert k v) rs

mutual
/-- `deserialize_field<T>` with its log. The line of a field is written before
    its data is looked at. -/
def traceDecodeField (t : Tracer) (u : Uninit) : {α : Type} → Ty α → α → Record → TracedDecode α
  | _, .scalar s, target, record =>
    (t.announce (t.pointerName (.scalar s)) record.fieldName).follow (fun f => (f, target)) fun _ =>
      match record.data.readScalar s with
      | .error e => .fail (.undefined e, target)
      | .ok x => .done x
  | _, .char, target, record =>
    (t.announce (t.pointerName .char) record.fieldName).follow (fun f => (f, target)) fun _ =>
      .done target
  | _, .vector T, target, record =>
    (t.announce (t.pointerName (.vector T)) record.fieldName).follow (fun f => (f, target)) fun _ =>
      match record.data.readRecords with
      | .error e => .fail (.undefined e, target)
      | .ok recordsVector =>
        traceDecodeListLoop (T.defaultInit u) (traceDecodeField t u T) target recordsVector
  | _, @Ty.map _ _ _ K V, target, record =>
    (t.announce (t.pointerName (.map K V)) record.fieldName).follow (fun f => (f, target)) fun _ =>
      match record.data.readRecords with
      | .error e => .fail (.undefined e, target)
      | .ok recordsVector =>
        traceDecodeMapLoop record.fieldName (K.defaultInit u) (V.defaultInit u)
          (traceDecodeField t u K) (traceDecodeField t u V) target recordsVector
  | _, .cls F ctor, target, record =>
    (t.announce (t.pointerName (.cls F ctor)) record.fieldName).follow (fun f => (f, target))
      fun _ =>
        match record.data.readRecords with
        | .error e => .fail (.undefined e, target)
        | .ok serializerRecords => traceDecodeClauses t u F target serializerRecords
/-- `__NANOSERVICES2_DESERIALIZE_FIELDCLAUSE__` for each member in turn. -/
def traceDecodeClauses (t : Tracer) (u : Uninit) : {σ : Type} → Fields σ → σ → List Record →
    TracedDecode σ
  | _, .nil, target, _ => .done target
  | _, .cons _ _ _, target, [] => .fail (.undefined .pastTheEnd, target)
  | _, .cons arg T F, target, r :: rs =>
    (traceDecodeFieldclause t arg target.1 r (traceDecodeField t u T target.1 r)).follow
      (fun e => (e.1, (e.2, target.2))) fun x =>
        (traceDecodeClauses t u F target.2 rs).follow (fun e => (e.1, (x, e.2))) fun xs =>
          .done (x, xs)
end

/-- A member that no variable hides is what its clause is about. -/
theorem traceFieldclause_eq (t : Tracer) (arg : MacroArg) (h : arg.shadowed serializeLocals = false)
    (n : Str) (cache : NameCache) (member : Logged Line Fault (Record × NameCache)) :
    traceFieldclause t arg n cache member = member := by
  rw [traceFieldclause, h, if_neg Bool.false_ne_true]

/-- The same in the decoder. -/
theorem traceDecodeFieldclause_eq (t : Tracer) {α : Type} (arg : MacroArg)
    (h : arg.shadowed deserializeLocals = false) (w : α) (r : Record) (member : TracedDecode α) :
    traceDecodeFieldclause t arg w r member = member := by
  rw [traceDecodeFieldclause, h, if_neg Bool.false_ne_true]

/-! ### Results -/

/-- Announcing a field does not fail, also where the type name cannot be
    demangled. -/
@[simp] theorem announce_result (t : Tracer) (typeidName fieldName : Str) :
    (t.announce typeidName fieldName).result = .ok () := by
  unfold Tracer.announce
  split
  · exact Logged.result_follow_ok _ _ _ _ (demangleTypeName_result _ _ _)
  · rfl

/-- What is announced first has no part in the result. -/
theorem result_announce {ε α : Type} (t : Tracer) (typeidName fieldName : Str) (fault : Fault → ε)
    (k : Unit → Logged Line ε α) :
    ((t.announce typeidName fieldName).follow fault k).result = (k ()).result :=
  Logged.result_follow_ok _ _ _ _ (announce_result t typeidName fieldName)

/-- Without its log the traced clause is the clause. -/
theorem traceFieldclause_result (t : Tracer) (arg : MacroArg) (n : Str) (cache : NameCache)
    (member : Logged Line Fault (Record × NameCache)) :
    (traceFieldclause t arg n cache member).result =
      serializeFieldclause arg n cache member.result := by
  unfold traceFieldclause serializeFieldclause
  split
  · exact result_announce t _ n id _
  · rfl

/-- Without their logs the items are encoded as they are without logging. -/
theorem traceListLoop_result {α : Type}
    (item : Str → α → NameCache → Logged Line Fault (Record × NameCache)) (xs : List α)
    (caches : List NameCache) :
    (traceListLoop item xs caches).result =
      serializeListLoop (fun n x c => (item n x c).result) xs caches := by
  induction xs generalizing caches with
  | nil => rfl
  | cons x xs ih =>
      simp only [traceListLoop, serializeListLoop, Logged.result_follow, ih caches.tail,
        Logged.result_done, id]
      -- The item is the first to fail, or the rest of the loop decides.
      cases (item listItemRecordName x (caches.headD .fresh)).result with
      | error f => rfl
      | ok p =>
          cases serializeListLoop (fun n x c => (item n x c).result) xs caches.tail with
          | error f => rfl
          | ok q => rfl

/-- So are keys and values. -/
theorem traceMapLoop_result {κ ν : Type}
    (keyItem : Str → κ → NameCache → Logged Line Fault (Record × NameCache))
    (valueItem : Str → ν → NameCache → Logged Line Fault (Record × NameCache))
    (entries : List (κ × ν)) (caches : List NameCache) :
    (traceMapLoop keyItem valueItem entries caches).result =
      serializeMapLoop (fun n x c => (keyItem n x c).result) (fun n x c => (valueItem n x c).result)
        entries caches := by
  induction entries generalizing caches with
  | nil => rfl
  | cons e entries ih =>
      simp only [traceMapLoop, serializeMapLoop, Logged.result_follow, ih caches.tail.tail,
        Logged.result_done, id]
      -- The key, the value and the rest of the loop may fail, in this order.
      cases (keyItem mapItemKeyRecordName e.1 (caches.headD .fresh)).result with
      | error f => rfl
      | ok p =>
          cases (valueItem mapItemValueRecordName e.2 (caches.tail.headD .fresh)).result with
          | error f => rfl
          | ok q =>
              cases serializeMapLoop (fun n x c => (keyItem n x c).result)
                (fun n x c => (valueItem n x c).result) entries caches.tail.tail with
              | error f => rfl
              | ok data => rfl

mutual
/-- Without its log the traced encoder is the encoder. -/
theorem traceField_result (t : Tracer) : ∀ {α : Type} (T : Ty α) (n : Str) (v : α)
    (cache : NameCache), (traceField t T n v cache).result = serializeField T n v cache
  | _, .scalar s, n, v, cache => by
      rw [traceField, result_announce, serializeField]
      rfl
  | _, .char, n, v, cache => by
      rw [traceField, result_announce, serializeField]
      rfl
  | _, .vector T, n, v, cache => by
      -- Below, the traced function is the other one.
      have hitem : (fun n x c => (traceField t T n x c).result) = serializeField T := by
        funext n x c
        exact traceField_result t T n x c
      rw [traceField, result_announce, serializeField, serializeListField]
      split
      · rfl
      · rw [Logged.result_follow, traceListLoop_result, hitem]
        cases serializeListLoop (serializeField T) v cache.inner with
        | error f => rfl
        | ok p => rfl
  | _, @Ty.map _ _ _ K V, n, m, cache => by
      have hkey : (fun n x c => (traceField t K n x c).result) = serializeField K := by
        funext n x c
        exact traceField_result t K n x c
      have hvalue : (fun n x c => (traceField t V n x c).result) = serializeField V := by
        funext n x c
        exact traceField_result t V n x c
      rw [traceField, result_announce, serializeField, serializeMapField, Logged.result_follow,
        traceMapLoop_result, hkey, hvalue]
      cases serializeMapLoop (serializeField K) (serializeField V) m.entries cache.inner with
      | error f => rfl
      | ok data => rfl
  | _, .cls F ctor, n, v, cache => by
      rw [traceField, result_announce, serializeField, serializeObject]
      simp only [Logged.result_follow, traceClauses_result t F]
      -- The names are cached or made, and the clauses go through them.
      cases serializeClauses F v (match cache.own with
        | some names => names
        | none => splitString (stringize F.args) comma true false) cache.inner with
      | error f => rfl
      | ok p => rfl
/-- The same for the members of a class. -/
theorem traceClauses_result (t : Tracer) : ∀ {σ : Type} (F : Fields σ) (v : σ) (names : List Str)
    (caches : List NameCache),
    (traceClauses t F v names caches).result = serializeClauses F v names caches
  | _, .nil, _, _, _ => rfl
  | _, .cons _ _ _, _, [], _ => rfl
  | _, .cons arg T F, v, name :: names, caches => by
      simp only [traceClauses, serializeClauses, Logged.result_follow, traceFieldclause_result,
        traceField_result t T, traceClauses_result t F, Logged.result_done, id]
      -- The first member, and then the others.
      cases serializeFieldclause arg name (caches.headD .fresh)
        (serializeField T name v.1 (caches.headD .fresh)) with
      | error f => rfl
      | ok p =>
          cases serializeClauses F v.2 names caches.tail with
          | error f => rfl
          | ok q => rfl
end

/-- Without its log the traced clause of the decoder is the clause. -/
theorem traceDecodeFieldclause_result (t : Tracer) {α : Type} (arg : MacroArg) (w : α) (r : Record)
    (member : TracedDecode α) :
    (traceDecodeFieldclause t arg w r member).result =
      deserializeFieldclause arg w member.result := by
  unfold traceDecodeFieldclause deserializeFieldclause
  split
  · exact result_announce t _ _ _ _
  · rfl

/-- Without their logs the items are decoded as they are without logging. -/
theorem traceDecodeListLoop_result {α : Type} (x₀ : α) (item : α → Record → TracedDecode α)
    (rs : List Record) (target : List α) :
    (traceDecodeListLoop x₀ item target rs).result =
      deserializeListLoop x₀ (fun w r => (item w r).result) target rs := by
  induction rs generalizing target with
  | nil => rfl
  | cons r rs ih =>
      rw [traceDecodeListLoop, deserializeListLoop, Logged.result_follow]
      -- The target does not have an item that failed.
      cases (item x₀ r).result with
      | error e => rfl
      | ok x => exact ih (target ++ [x])

/-- So are keys and values, and a key that is left over throws. -/
theorem traceDecodeMapLoop_result {κ ν : Type} [LinearOrder κ] (n : Str) (k₀ : κ) (v₀ : ν)
    (keyItem : κ → Record → TracedDecode κ) (valueItem : ν → Record → TracedDecode ν)
    (rs : List Record) (target : SortedMap κ ν) :
    (traceDecodeMapLoop n k₀ v₀ keyItem valueItem target rs).result =
      deserializeMapLoop n k₀ v₀ (fun w r => (keyItem w r).result)
        (fun w r => (valueItem w r).result) target rs := by
  induction rs using pairInduction generalizing target with
  | nil => rfl
  -- The key is decoded, and then the exception is thrown.
  | single kr =>
      rw [traceDecodeMapLoop, deserializeMapLoop, Logged.result_follow]
      cases (keyItem k₀ kr).result with
      | error e => rfl
      | ok k => rfl
  | pair kr vr rs ih =>
      rw [traceDecodeMapLoop, deserializeMapLoop, Logged.result_follow]
      cases (keyItem k₀ kr).result with
      | error e => rfl
      | ok k =>
          simp only [Logged.result_follow]
          cases (valueItem v₀ vr).result with
          | error e => rfl
          | ok v => exact ih (target.insert k v)

mutual
/-- Without its log the traced decoder is the decoder, also where it fails. -/
theorem traceDecodeField_result (t : Tracer) (u : Uninit) : ∀ {α : Type} (T : Ty α) (w : α)
    (r : Record), (traceDecodeField t u T w r).result = deserializeField u T w r
  | _, .scalar s, w, r => by
      rw [traceDecodeField, result_announce, deserializeField]
      cases r.data.readScalar s with
      | error e => rfl
      | ok x => rfl
  | _, .char, w, r => by
      rw [traceDecodeField, result_announce, deserializeField]
      rfl
  | _, .vector T, w, r => by
      -- Below, the traced function is the other one.
      have hitem : (fun w r => (traceDecodeField t u T w r).result) = deserializeField u T := by
        funext w r
        exact traceDecodeField_result t u T w r
      rw [traceDecodeField, result_announce, deserializeField, deserializeListField]
      cases r.data.readRecords with
      | error e => rfl
      | ok rs => exact (traceDecodeListLoop_result _ _ rs w).trans (by rw [hitem])
  | _, @Ty.map _ _ _ K V, w, r => by
      have hkey : (fun w r => (traceDecodeField t u K w r).result) = deserializeField u K := by
        funext w r
        exact traceDecodeField_result t u K w r
      have hvalue : (fun w r => (traceDecodeField t u V w r).result) = deserializeField u V := by
        funext w r
        exact traceDecodeField_result t u V w r
      rw [traceDecodeField, result_announce, deserializeField, deserializeMapField]
      cases r.data.readRecords with
      | error e => rfl
      | ok rs => exact (traceDecodeMapLoop_result _ _ _ _ _ rs w).trans (by rw [hkey, hvalue])
  | _, .cls F ctor, w, r => by
      rw [traceDecodeField, result_announce, deserializeField]
      cases r.data.readRecords with
      | error e => rfl
      | ok rs => exact traceDecodeClauses_result t u F w rs
/-- The same for the members of a class. -/
theorem traceDecodeClauses_result (t : Tracer) (u : Uninit) : ∀ {σ : Type} (F : Fields σ) (w : σ)
    (rs : List Record), (traceDecodeClauses t u F w rs).result = deserializeClauses u F w rs
  | _, .nil, _, _ => rfl
  | _, .cons _ _ _, _, [] => rfl
  | _, .cons arg T F, w, r :: rs => by
      simp only [traceDecodeClauses, deserializeClauses, Logged.result_follow,
        traceDecodeFieldclause_result, traceDecodeField_result t u T,
        traceDecodeClauses_result t u F]
      -- The first member stays written where a later one fails.
      cases deserializeFieldclause arg w.1 (deserializeField u T w.1 r) with
      | error e => rfl
      | ok x =>
          cases deserializeClauses u F w.2 rs with
          | error e => rfl
          | ok xs => rfl
end

/-- Whatever the level of the logger is, and whether or not type names can be
    demangled, serializing and deserializing do what they do without logging. -/
theorem trace_transparent (t : Tracer) (u : Uninit) {α : Type} (T : Ty α) :
    (∀ (n : Str) (v : α) (cache : NameCache),
      (traceField t T n v cache).result = serializeField T n v cache) ∧
    ∀ (w : α) (r : Record), (traceDecodeField t u T w r).result = deserializeField u T w r :=
  ⟨traceField_result t T, traceDecodeField_result t u T⟩

/-! ### Silence -/

/-- A field is announced by a logger at the level `trace`, and by no other. -/
theorem log_announce_eq_nil_iff (t : Tracer) (typeidName fieldName : Str) :
    (t.announce typeidName fieldName).log = [] ↔ t.threshold ≠ .trace := by
  rw [ne_eq, ← shouldLog_trace_iff, Tracer.announce]
  -- At the level there is at least the line itself.
  by_cases h : shouldLog t.threshold .trace = true
  · rw [if_pos h, Logged.log_follow_ok _ _ _ _ (demangleTypeName_result _ _ _), logAt, if_pos h]
    simp only [List.append_eq_nil_iff, List.cons_ne_nil, and_false, h, not_true_eq_false]
  · rw [if_neg h]
    exact iff_of_true rfl h

/-- The line of a field comes first, and then what the rest logs. -/
theorem log_announce {ε α : Type} (t : Tracer) (typeidName fieldName : Str) (fault : Fault → ε)
    (k : Unit → Logged Line ε α) :
    ((t.announce typeidName fieldName).follow fault k).log =
      (t.announce typeidName fieldName).log ++ (k ()).log :=
  Logged.log_follow_ok _ _ _ _ (announce_result t typeidName fieldName)

/-- Where fields are not announced the log is that of the rest. -/
theorem log_announce_nil {ε α : Type} (t : Tracer) (ht : t.threshold ≠ .trace)
    (typeidName fieldName : Str) (fault : Fault → ε) (k : Unit → Logged Line ε α)
    (hk : (k ()).log = []) :
    ((t.announce typeidName fieldName).follow fault k).log = [] := by
  rw [log_announce, (log_announce_eq_nil_iff t typeidName fieldName).mpr ht, hk, List.append_nil]

/-- A clause logs nothing if its member logs nothing. -/
theorem traceFieldclause_silent (t : Tracer) (ht : t.threshold ≠ .trace) (arg : MacroArg)
    (n : Str) (cache : NameCache) (member : Logged Line Fault (Record × NameCache))
    (h : member.log = []) :
    (traceFieldclause t arg n cache member).log = [] := by
  unfold traceFieldclause
  split
  · exact log_announce_nil t ht _ n id _ rfl
  · exact h

/-- The list loop logs nothing if no item does. -/
theorem traceListLoop_silent {α : Type}
    (item : Str → α → NameCache → Logged Line Fault (Record × NameCache))
    (hitem : ∀ n x cache, (item n x cache).log = []) (xs : List α) (caches : List NameCache) :
    (traceListLoop item xs caches).log = [] := by
  induction xs generalizing caches with
  | nil => rfl
  | cons x xs ih =>
      refine Logged.log_follow_nil _ _ _ (hitem _ _ _) ?_
      intro p
      exact Logged.log_follow_nil _ _ _ (ih _) fun _ => rfl

/-- The map loop logs nothing if no key and no value does. -/
theorem traceMapLoop_silent {κ ν : Type}
    (keyItem : Str → κ → NameCache → Logged Line Fault (Record × NameCache))
    (valueItem : Str → ν → NameCache → Logged Line Fault (Record × NameCache))
    (hkey : ∀ n x cache, (keyItem n x cache).log = [])
    (hvalue : ∀ n x cache, (valueItem n x cache).log = []) (entries : List (κ × ν))
    (caches : List NameCache) : (traceMapLoop keyItem valueItem entries caches).log = [] := by
  induction entries generalizing caches with
  | nil => rfl
  | cons e entries ih =>
      refine Logged.log_follow_nil _ _ _ (hkey _ _ _) ?_
      intro p
      refine Logged.log_follow_nil _ _ _ (hvalue _ _ _) ?_
      intro q
      exact Logged.log_follow_nil _ _ _ (ih _) fun _ => rfl

mutual
/-- Below the level `trace` the encoder logs nothing, whatever it serializes. -/
theorem traceField_silent (t : Tracer) (ht : t.threshold ≠ .trace) : ∀ {α : Type} (T : Ty α)
    (n : Str) (v : α) (cache : NameCache), (traceField t T n v cache).log = []
  | _, .scalar s, n, v, cache => by
      rw [traceField]
      exact log_announce_nil t ht _ n id _ rfl
  | _, .char, n, v, cache => by
      rw [traceField]
      exact log_announce_nil t ht _ n id _ rfl
  | _, .vector T, n, v, cache => by
      rw [traceField]
      refine log_announce_nil t ht _ n id _ ?_
      split
      · rfl
      · -- No item is announced, so the loop logs nothing.
        have hloop := traceListLoop_silent (traceField t T) (traceField_silent t ht T) v cache.inner
        exact Logged.log_follow_nil _ _ _ hloop fun _ => rfl
  | _, @Ty.map _ _ _ K V, n, m, cache => by
      rw [traceField]
      refine log_announce_nil t ht _ n id _ ?_
      have hloop := traceMapLoop_silent (traceField t K) (traceField t V) (traceField_silent t ht K)
        (traceField_silent t ht V) m.entries cache.inner
      exact Logged.log_follow_nil _ _ _ hloop fun _ => rfl
  | _, .cls F ctor, n, v, cache => by
      rw [traceField]
      refine log_announce_nil t ht _ n id _ ?_
      exact Logged.log_follow_nil _ _ _ (traceClauses_silent t ht F v _ _) fun _ => rfl
/-- The same for the members of a class. -/
theorem traceClauses_silent (t : Tracer) (ht : t.threshold ≠ .trace) : ∀ {σ : Type} (F : Fields σ)
    (v : σ) (names : List Str) (caches : List NameCache), (traceClauses t F v names caches).log = []
  | _, .nil, _, _, _ => rfl
  | _, .cons _ _ _, _, [], _ => rfl
  | _, .cons arg T F, v, name :: names, caches => by
      rw [traceClauses]
      have hmember := traceField_silent t ht T name v.1 (caches.headD .fresh)
      refine Logged.log_follow_nil _ _ _ (traceFieldclause_silent t ht arg name _ _ hmember) ?_
      intro p
      exact Logged.log_follow_nil _ _ _ (traceClauses_silent t ht F v.2 names caches.tail)
        fun _ => rfl
end

/-- A clause of the decoder logs nothing if its member logs nothing. -/
theorem traceDecodeFieldclause_silent (t : Tracer) (ht : t.threshold ≠ .trace) {α : Type}
    (arg : MacroArg) (w : α) (r : Record) (member : TracedDecode α) (h : member.log = []) :
    (traceDecodeFieldclause t arg w r member).log = [] := by
  unfold traceDecodeFieldclause
  split
  · exact log_announce_nil t ht _ _ _ _ rfl
  · exact h

/-- The list loop of the decoder logs nothing if no item does. -/
theorem traceDecodeListLoop_silent {α : Type} (x₀ : α) (item : α → Record → TracedDecode α)
    (hitem : ∀ w r, (item w r).log = []) (rs : List Record) (target : List α) :
    (traceDecodeListLoop x₀ item target rs).log = [] := by
  induction rs generalizing target with
  | nil => rfl
  | cons r rs ih => exact Logged.log_follow_nil _ _ _ (hitem _ _) fun x => ih (target ++ [x])

/-- The map loop of the decoder logs nothing if no key and no value does. -/
theorem traceDecodeMapLoop_silent {κ ν : Type} [LinearOrder κ] (n : Str) (k₀ : κ) (v₀ : ν)
    (keyItem : κ → Record → TracedDecode κ) (valueItem : ν → Record → TracedDecode ν)
    (hkey : ∀ w r, (keyItem w r).log = []) (hvalue : ∀ w r, (valueItem w r).log = [])
    (rs : List Record) (target : SortedMap κ ν) :
    (traceDecodeMapLoop n k₀ v₀ keyItem valueItem target rs).log = [] := by
  induction rs using pairInduction generalizing target with
  | nil => rfl
  | single kr => exact Logged.log_follow_nil _ _ _ (hkey _ _) fun _ => rfl
  | pair kr vr rs ih =>
      refine Logged.log_follow_nil _ _ _ (hkey _ _) ?_
      intro k
      exact Logged.log_follow_nil _ _ _ (hvalue _ _) fun v => ih (target.insert k v)

mutual
/-- Below the level `trace` the decoder logs nothing, whatever the record is and
    however decoding ends. -/
theorem traceDecodeField_silent (t : Tracer) (u : Uninit) (ht : t.threshold ≠ .trace) :
    ∀ {α : Type} (T : Ty α) (w : α) (r : Record), (traceDecodeField t u T w r).log = []
  | _, .scalar s, w, r => by
      rw [traceDecodeField]
      refine log_announce_nil t ht _ _ _ _ ?_
      -- Whether there is a record vector or not, nothing is logged.
      split
      · rfl
      · rfl
  | _, .char, w, r => by
      rw [traceDecodeField]
      exact log_announce_nil t ht _ _ _ _ rfl
  | _, .vector T, w, r => by
      rw [traceDecodeField]
      refine log_announce_nil t ht _ _ _ _ ?_
      split
      · rfl
      · exact traceDecodeListLoop_silent _ _ (traceDecodeField_silent t u ht T) _ w
  | _, @Ty.map _ _ _ K V, w, r => by
      rw [traceDecodeField]
      refine log_announce_nil t ht _ _ _ _ ?_
      split
      · rfl
      · exact traceDecodeMapLoop_silent _ _ _ _ _ (traceDecodeField_silent t u ht K)
          (traceDecodeField_silent t u ht V) _ w
  | _, .cls F ctor, w, r => by
      rw [traceDecodeField]
      refine log_announce_nil t ht _ _ _ _ ?_
      split
      · rfl
      · exact traceDecodeClauses_silent t u ht F w _
/-- The same for the members of a class. -/
theorem traceDecodeClauses_silent (t : Tracer) (u : Uninit) (ht : t.threshold ≠ .trace) :
    ∀ {σ : Type} (F : Fields σ) (w : σ) (rs : List Record),
      (traceDecodeClauses t u F w rs).log = []
  | _, .nil, _, _ => rfl
  | _, .cons _ _ _, _, [] => rfl
  | _, .cons arg T F, w, r :: rs => by
      rw [traceDecodeClauses]
      have hmember := traceDecodeField_silent t u ht T w.1 r
      refine Logged.log_follow_nil _ _ _ (traceDecodeFieldclause_silent t ht arg w.1 r _ hmember) ?_
      intro x
      exact Logged.log_follow_nil _ _ _ (traceDecodeClauses_silent t u ht F w.2 rs) fun _ => rfl
end

/-- The encoder leaves lines unless the logger is not at the level `trace`: the
    first field is announced before anything can go wrong. -/
theorem log_traceField_eq_nil_iff (t : Tracer) {α : Type} (T : Ty α) (n : Str) (v : α)
    (cache : NameCache) : (traceField t T n v cache).log = [] ↔ t.threshold ≠ .trace := by
  constructor
  · intro h
    -- Whatever the type is, the log begins with the line of the field.
    have hfirst : ∃ typeidName, (t.announce typeidName n).log = [] := by
      cases T <;> rw [traceField, log_announce, List.append_eq_nil_iff] at h <;> exact ⟨_, h.1⟩
    rcases hfirst with ⟨typeidName, hlog⟩
    exact (log_announce_eq_nil_iff t typeidName n).mp hlog
  · intro ht
    exact traceField_silent t ht T n v cache

/-- So does the decoder, on every record and however it ends. -/
theorem log_traceDecodeField_eq_nil_iff (t : Tracer) (u : Uninit) {α : Type} (T : Ty α) (w : α)
    (r : Record) : (traceDecodeField t u T w r).log = [] ↔ t.threshold ≠ .trace := by
  constructor
  · intro h
    -- Whatever the type is, the log begins with the line of the field.
    have hfirst : ∃ typeidName, (t.announce typeidName r.fieldName).log = [] := by
      cases T <;> rw [traceDecodeField, log_announce, List.append_eq_nil_iff] at h <;>
        exact ⟨_, h.1⟩
    rcases hfirst with ⟨typeidName, hlog⟩
    exact (log_announce_eq_nil_iff t typeidName r.fieldName).mp hlog
  · intro ht
    exact traceDecodeField_silent t u ht T w r

end Nanoservices
