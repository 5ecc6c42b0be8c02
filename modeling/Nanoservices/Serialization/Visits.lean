import Nanoservices.Serialization.Overlay
import Nanoservices.Serialization.Tracing

/-!
# The Walk Behind a Trace

What serializing logs is a walk over the value, each field before the fields in
it: `visits`. Decoding what was serialized logs the same walk, so its trace is
the trace of the encoding before it with every type replaced by a pointer to it,
line by line (`trace_decode_encode`).

That is so where every member is what its clause is about. A member that is
called like a local variable is announced by one of the two functions as the
variable and by the other as itself, and where the decoder is the other it
finds no data.

## Main definitions

* `Visit`: A field that is come to.
* `visits`, `visitsFields`: The fields in the order they are come to.
* `Tracer.lines`: The lines of a walk.

## Theorems

* `traceField_log`, `traceDecodeField_log`: The logs are the lines of the walk.
* `trace_decode_encode`: The trace of decoding what was encoded.
-/

namespace Nanoservices

open Interleave Logging

/-! ### Walks -/

/-- A field that is come to. -/
structure Visit : Type 1 where
  {α : Type}
  type : Ty α
  fieldName : Str

mutual
/-- The fields of a value in the order they are come to. -/
def visits : {α : Type} → Ty α → Str → α → List Visit
  | _, .scalar s, n, _ => [⟨.scalar s, n⟩]
  | _, .char, n, _ => [⟨.char, n⟩]
  | _, .vector T, n, v => ⟨.vector T, n⟩ :: v.flatMap (visits T listItemRecordName)
  | _, @Ty.map _ _ _ K V, n, m => ⟨.map K V, n⟩ :: m.entries.flatMap fun e =>
      visits K mapItemKeyRecordName e.1 ++ visits V mapItemValueRecordName e.2
  | _, .cls F ctor, n, v => ⟨.cls F ctor, n⟩ :: visitsFields F v
/-- The same for the members of a class. -/
def visitsFields : {σ : Type} → Fields σ → σ → List Visit
  | _, .nil, _ => []
  | _, .cons arg T F, v => visits T arg.name.chars v.1 ++ visitsFields F v.2
end

/-- The lines of a walk, under one of the two names of a type. -/
def Tracer.lines (t : Tracer) (name : {α : Type} → Ty α → Str) (vs : List Visit) : List Line :=
  vs.flatMap fun v => (t.announce (name v.type) v.fieldName).log

section Lines

variable (t : Tracer) (name : {α : Type} → Ty α → Str)

/-- The lines of the first visit come first. -/
@[simp] theorem lines_cons (v : Visit) (vs : List Visit) :
    t.lines name (v :: vs) = (t.announce (name v.type) v.fieldName).log ++ t.lines name vs :=
  List.flatMap_cons

/-- The lines of two walks, one after the other. -/
@[simp] theorem lines_append (vs vs' : List Visit) :
    t.lines name (vs ++ vs') = t.lines name vs ++ t.lines name vs' := List.flatMap_append

end Lines

/-! ### The encoder -/

/-- The list loop logs what its items log, in their order. -/
theorem traceListLoop_log {α : Type} (t : Tracer)
    (item : Str → α → NameCache → Logged Line Fault (Record × NameCache)) (Ok : NameCache → Prop)
    (hfresh : Ok .fresh) (vs : α → List Visit)
    (hitem : ∀ x cache, Ok cache → ∃ r cache', (item listItemRecordName x cache).result =
      .ok (r, cache') ∧ (item listItemRecordName x cache).log = t.lines t.typeName (vs x))
    (xs : List α)
    (caches : List NameCache) (h : ∀ c ∈ caches, Ok c) :
    (∃ p, (traceListLoop item xs caches).result = .ok p) ∧
      (traceListLoop item xs caches).log = t.lines t.typeName (xs.flatMap vs) := by
  induction xs generalizing caches with
  | nil => exact ⟨⟨_, rfl⟩, rfl⟩
  | cons x xs ih =>
      -- Items that have no cache yet get a fresh one.
      have hhead : Ok (caches.headD .fresh) := by
        cases caches with
        | nil => exact hfresh
        | cons c cs => exact h c List.mem_cons_self
      rcases hitem x _ hhead with ⟨r, cache', hresult, hlog⟩
      rcases ih caches.tail (fun c hc => h c (List.mem_of_mem_tail hc)) with ⟨⟨p, hp⟩, hrest⟩
      refine ⟨⟨(r :: p.1, cache' :: p.2), ?_⟩, ?_⟩
      · rw [traceListLoop, Logged.result_follow_ok _ _ _ _ hresult,
          Logged.result_follow_ok _ _ _ _ hp]
        rfl
      · rw [traceListLoop, Logged.log_follow_ok _ _ _ _ hresult, Logged.log_follow_ok _ _ _ _ hp,
          hlog, hrest, List.flatMap_cons, lines_append, Logged.log_done, List.append_nil]

/-- The map loop logs what each key and its value log. -/
theorem traceMapLoop_log {κ ν : Type} (t : Tracer)
    (keyItem : Str → κ → NameCache → Logged Line Fault (Record × NameCache))
    (valueItem : Str → ν → NameCache → Logged Line Fault (Record × NameCache))
    (OkK OkV : NameCache → Prop) (hfreshK : OkK .fresh) (hfreshV : OkV .fresh)
    (vsK : κ → List Visit) (vsV : ν → List Visit)
    (hkey : ∀ x cache, OkK cache → ∃ p, (keyItem mapItemKeyRecordName x cache).result = .ok p ∧
      (keyItem mapItemKeyRecordName x cache).log = t.lines t.typeName (vsK x))
    (hvalue : ∀ x cache, OkV cache → ∃ p, (valueItem mapItemValueRecordName x cache).result =
      .ok p ∧ (valueItem mapItemValueRecordName x cache).log = t.lines t.typeName (vsV x))
    (entries : List (κ × ν)) (caches : List NameCache) (h : Alternate OkK OkV caches) :
    (∃ data, (traceMapLoop keyItem valueItem entries caches).result = .ok data) ∧
      (traceMapLoop keyItem valueItem entries caches).log =
        t.lines t.typeName (entries.flatMap fun e => vsK e.1 ++ vsV e.2) := by
  induction entries generalizing caches with
  | nil => exact ⟨⟨_, rfl⟩, rfl⟩
  | cons e entries ih =>
      -- Where the caches run out, keys and values are serialized with fresh ones.
      have hcaches := h.headD OkK OkV .fresh .fresh hfreshK hfreshV caches
      rcases hkey e.1 _ hcaches.1 with ⟨pk, hk, hklog⟩
      rcases hvalue e.2 _ hcaches.2.1 with ⟨pv, hv, hvlog⟩
      rcases ih _ hcaches.2.2 with ⟨⟨data, hdata⟩, hrest⟩
      refine ⟨⟨pk.1 :: pv.1 :: data, ?_⟩, ?_⟩
      · rw [traceMapLoop, Logged.result_follow_ok _ _ _ _ hk, Logged.result_follow_ok _ _ _ _ hv,
          Logged.result_follow_ok _ _ _ _ hdata]
        rfl
      · rw [traceMapLoop, Logged.log_follow_ok _ _ _ _ hk, Logged.log_follow_ok _ _ _ _ hv,
          Logged.log_follow_ok _ _ _ _ hdata, hklog, hvlog, hrest, List.flatMap_cons,
          lines_append, lines_append, Logged.log_done, List.append_nil, List.append_assoc]

mutual
/-- The encoder logs the walk over the value. -/
theorem traceField_log (t : Tracer) : ∀ {α : Type} (T : Ty α), T.Supported →
    T.Unshadowed serializeLocals → ∀ (n : Str) (v : α) (cache : NameCache), T.CacheOk cache →
      (traceField t T n v cache).log = t.lines t.typeName (visits T n v)
  | _, .scalar s, _, _, n, v, cache, _ => by
      rw [traceField, log_announce, visits, lines_cons]
      rfl
  | _, .vector T, hT, hU, n, v, cache, hcache => by
      have hitem : ∀ x cache, T.CacheOk cache →
          ∃ r cache', (traceField t T listItemRecordName x cache).result = .ok (r, cache') ∧
            (traceField t T listItemRecordName x cache).log =
              t.lines t.typeName (visits T listItemRecordName x) := by
        intro x cache h
        -- An item is serialized without a fault, so the loop goes on behind it.
        rcases serializeField_eq T hT listItemRecordName x cache h with ⟨cache', hx, _⟩
        rw [← traceField_result t] at hx
        exact ⟨_, cache', hx, traceField_log t T hT hU listItemRecordName x cache h⟩
      rcases traceListLoop_log t (traceField t T) T.CacheOk (cacheOk_fresh T) _ hitem v cache.inner
        hcache with ⟨⟨p, hp⟩, hlog⟩
      rw [traceField, log_announce, isVectorChar_of_supported T hT, visits, lines_cons]
      simp only [Bool.false_eq_true, if_false]
      rw [Logged.log_follow_ok _ _ _ _ hp, hlog, Logged.log_done, List.append_nil]
  | _, @Ty.map _ _ _ K V, hT, hU, n, m, cache, hcache => by
      have hkey : ∀ x cache, K.CacheOk cache →
          ∃ p, (traceField t K mapItemKeyRecordName x cache).result = .ok p ∧
            (traceField t K mapItemKeyRecordName x cache).log =
              t.lines t.typeName (visits K mapItemKeyRecordName x) := by
        intro x cache h
        rcases serializeField_eq K hT.1 mapItemKeyRecordName x cache h with ⟨cache', hx, _⟩
        rw [← traceField_result t] at hx
        exact ⟨_, hx, traceField_log t K hT.1 hU.1 mapItemKeyRecordName x cache h⟩
      have hvalue : ∀ x cache, V.CacheOk cache →
          ∃ p, (traceField t V mapItemValueRecordName x cache).result = .ok p ∧
            (traceField t V mapItemValueRecordName x cache).log =
              t.lines t.typeName (visits V mapItemValueRecordName x) := by
        intro x cache h
        rcases serializeField_eq V hT.2 mapItemValueRecordName x cache h with ⟨cache', hx, _⟩
        rw [← traceField_result t] at hx
        exact ⟨_, hx, traceField_log t V hT.2 hU.2 mapItemValueRecordName x cache h⟩
      rcases traceMapLoop_log t (traceField t K) (traceField t V) K.CacheOk V.CacheOk
        (cacheOk_fresh K) (cacheOk_fresh V) _ _ hkey hvalue m.entries cache.inner hcache
        with ⟨⟨data, hdata⟩, hlog⟩
      rw [traceField, log_announce, visits, lines_cons, Logged.log_follow_ok _ _ _ _ hdata, hlog,
        Logged.log_done, List.append_nil]
  | _, .cls F ctor, hT, hU, n, v, cache, hcache => by
      rcases serializeClauses_eq F hT v cache.inner hcache.2 with ⟨caches', hclauses, _⟩
      rw [← traceClauses_result t] at hclauses
      have hmembers : ∀ names, names = splitString (stringize F.args) comma true false →
          ((traceClauses t F v names cache.inner).follow id fun p => Logged.done
            ((⟨.serializableClass, n, .records p.1⟩ : Record),
              NameCache.node (some names) p.2)).log = t.lines t.typeName (visitsFields F v) := by
        intro names hnames
        rw [hnames, splitString_stringize, Logged.log_follow_ok _ _ _ _ hclauses,
          traceClauses_log t F hT hU v cache.inner hcache.2, Logged.log_done, List.append_nil]
      rw [traceField, log_announce, visits, lines_cons]
      refine congrArg _ ?_
      -- The names that have been cached are those of the members.
      cases howned : cache.own with
      | none => exact hmembers _ rfl
      | some names => exact hmembers names (hcache.1 names howned)
/-- The same for the members of a class, under the names that the class hands
    over. -/
theorem traceClauses_log (t : Tracer) : ∀ {σ : Type} (F : Fields σ), F.Supported →
    F.Unshadowed serializeLocals → ∀ (v : σ) (caches : List NameCache), F.CachesOk caches →
      (traceClauses t F v (F.args.map fun a => a.name.chars) caches).log =
        t.lines t.typeName (visitsFields F v)
  | _, .nil, _, _, _, _, _ => rfl
  | _, .cons arg T F, hF, hU, v, caches, hcaches => by
      rcases serializeField_eq T hF.1 arg.name.chars v.1 _ hcaches.1 with ⟨cache', hx, _⟩
      rcases serializeClauses_eq F hF.2 v.2 caches.tail hcaches.2 with ⟨caches', hxs, _⟩
      -- The member and the rest are serialized without a fault.
      rw [← traceField_result t] at hx
      rw [← traceClauses_result t] at hxs
      rw [Fields.args, List.map_cons, traceClauses, traceFieldclause_eq t arg hU.1,
        Logged.log_follow_ok _ _ _ _ hx, Logged.log_follow_ok _ _ _ _ hxs,
        traceField_log t T hF.1 hU.2.1 _ _ _ hcaches.1,
        traceClauses_log t F hF.2 hU.2.2 _ _ hcaches.2, visitsFields, lines_append,
        Logged.log_done, List.append_nil]
end

/-! ### The decoder -/

/-- The list loop of the decoder logs what its items log. -/
theorem traceDecodeListLoop_log {α : Type} (t : Tracer) (x₀ : α)
    (item : α → Record → TracedDecode α) (enc : α → Record) (vs : α → List Visit)
    (hitem : ∀ x, (∃ y, (item x₀ (enc x)).result = .ok y) ∧
      (item x₀ (enc x)).log = t.lines t.pointerName (vs x)) (xs target : List α) :
    (traceDecodeListLoop x₀ item target (xs.map enc)).log =
      t.lines t.pointerName (xs.flatMap vs) := by
  induction xs generalizing target with
  | nil => rfl
  | cons x xs ih =>
      rcases hitem x with ⟨⟨y, hy⟩, hlog⟩
      rw [List.map_cons, traceDecodeListLoop, Logged.log_follow_ok _ _ _ _ hy, hlog, ih,
        List.flatMap_cons, lines_append]

/-- The map loop of the decoder logs what each key and its value log. -/
theorem traceDecodeMapLoop_log {κ ν : Type} [LinearOrder κ] (t : Tracer) (n : Str) (k₀ : κ)
    (v₀ : ν) (keyItem : κ → Record → TracedDecode κ) (valueItem : ν → Record → TracedDecode ν)
    (encK : κ → Record) (encV : ν → Record) (vsK : κ → List Visit) (vsV : ν → List Visit)
    (hkey : ∀ x, (∃ y, (keyItem k₀ (encK x)).result = .ok y) ∧
      (keyItem k₀ (encK x)).log = t.lines t.pointerName (vsK x))
    (hvalue : ∀ x, (∃ y, (valueItem v₀ (encV x)).result = .ok y) ∧
      (valueItem v₀ (encV x)).log = t.lines t.pointerName (vsV x))
    (entries : List (κ × ν)) (target : SortedMap κ ν) :
    (traceDecodeMapLoop n k₀ v₀ keyItem valueItem target
      (interleave (entries.map fun e => (encK e.1, encV e.2)))).log =
      t.lines t.pointerName (entries.flatMap fun e => vsK e.1 ++ vsV e.2) := by
  induction entries generalizing target with
  | nil => rfl
  | cons e entries ih =>
      -- Both items return, so the loop goes on behind them.
      rcases hkey e.1 with ⟨⟨k, hk⟩, hklog⟩
      rcases hvalue e.2 with ⟨⟨v, hv⟩, hvlog⟩
      rw [List.map_cons, interleave, traceDecodeMapLoop, Logged.log_follow_ok _ _ _ _ hk,
        Logged.log_follow_ok _ _ _ _ hv, hklog, hvlog, ih, List.flatMap_cons, lines_append,
        lines_append, List.append_assoc]

/-- Decoding what was serialized returns, with its log as without. -/
theorem traceDecodeField_result_encode (t : Tracer) (u : Uninit) {α : Type} (T : Ty α)
    (hU : T.Unshadowed generatedLocals) (n : Str) (w v : α) :
    (traceDecodeField t u T w (encode T n v)).result = .ok (overlay u T w v) := by
  have hv := arrives_of_unshadowed T ((unshadowed_generatedLocals T).mp hU).1 v
  rw [traceDecodeField_result, deserializeField_encode u T n w v hv]

mutual
/-- The decoder logs the walk over the value that was encoded, whatever it
    decodes into. -/
theorem traceDecodeField_log (t : Tracer) (u : Uninit) : ∀ {α : Type} (T : Ty α),
    T.Unshadowed generatedLocals → ∀ (n : Str) (w v : α),
      (traceDecodeField t u T w (encode T n v)).log = t.lines t.pointerName (visits T n v)
  | _, .scalar s, _, n, w, v => by
      rw [traceDecodeField, log_announce, visits, lines_cons, encode, readScalar_scalar]
      rfl
  | _, .char, _, n, w, v => by
      rw [traceDecodeField, log_announce, visits, lines_cons]
      rfl
  | _, .vector T, hU, n, w, v => by
      have hitem : ∀ x, (∃ y, (traceDecodeField t u T (T.defaultInit u)
          (encode T listItemRecordName x)).result = .ok y) ∧
          (traceDecodeField t u T (T.defaultInit u) (encode T listItemRecordName x)).log =
            t.lines t.pointerName (visits T listItemRecordName x) := by
        intro x
        -- An item is decoded into a fresh object, so it returns and logs its
        -- walk.
        refine ⟨⟨overlay u T (T.defaultInit u) x, ?_⟩,
          traceDecodeField_log t u T hU listItemRecordName _ x⟩
        exact traceDecodeField_result_encode t u T hU _ _ x
      rw [traceDecodeField, log_announce, visits, lines_cons, encode, readRecords_records,
        traceDecodeListLoop_log t _ _ _ _ hitem v w]
  | _, @Ty.map _ _ _ K V, hU, n, w, m => by
      have hkey : ∀ x, (∃ y, (traceDecodeField t u K (K.defaultInit u)
          (encode K mapItemKeyRecordName x)).result = .ok y) ∧
          (traceDecodeField t u K (K.defaultInit u) (encode K mapItemKeyRecordName x)).log =
            t.lines t.pointerName (visits K mapItemKeyRecordName x) := by
        intro x
        refine ⟨⟨overlay u K (K.defaultInit u) x, ?_⟩,
          traceDecodeField_log t u K hU.1 mapItemKeyRecordName _ x⟩
        -- That it returns is known without the log.
        exact traceDecodeField_result_encode t u K hU.1 _ _ x
      have hvalue : ∀ x, (∃ y, (traceDecodeField t u V (V.defaultInit u)
          (encode V mapItemValueRecordName x)).result = .ok y) ∧
          (traceDecodeField t u V (V.defaultInit u) (encode V mapItemValueRecordName x)).log =
            t.lines t.pointerName (visits V mapItemValueRecordName x) := by
        intro x
        refine ⟨⟨overlay u V (V.defaultInit u) x, ?_⟩,
          traceDecodeField_log t u V hU.2 mapItemValueRecordName _ x⟩
        exact traceDecodeField_result_encode t u V hU.2 _ _ x
      rw [traceDecodeField, log_announce, visits, lines_cons, encode, readRecords_records,
        traceDecodeMapLoop_log t n _ _ _ _ _ _ _ _ hkey hvalue m.entries w]
  | _, .cls F ctor, hU, n, w, v => by
      rw [traceDecodeField, log_announce, visits, lines_cons, encode, readRecords_records,
        traceDecodeClauses_log t u F hU w v]
/-- The same for the members of a class. None of them is hidden, so each is
    decoded from its own record. -/
theorem traceDecodeClauses_log (t : Tracer) (u : Uninit) : ∀ {σ : Type} (F : Fields σ),
    F.Unshadowed generatedLocals → ∀ w v : σ,
      (traceDecodeClauses t u F w (encodeFields F v)).log =
        t.lines t.pointerName (visitsFields F v)
  | _, .nil, _, _, _ => rfl
  | _, .cons arg T F, hU, w, v => by
      rcases (shadowed_generatedLocals arg).mp hU.1 with ⟨hs, hd⟩
      -- Both parts succeed, so both of their logs are there.
      have hx : (traceDecodeField t u T w.1 (encode T arg.name.chars v.1)).result =
          .ok (overlay u T w.1 v.1) :=
        traceDecodeField_result_encode t u T hU.2.1 _ _ v.1
      have hxs : (traceDecodeClauses t u F w.2 (encodeFields F v.2)).result =
          .ok (overlayFields u F w.2 v.2) := by
        have hS := (unshadowedFields_append serializeLocals deserializeLocals F).mp hU.2.2
        rw [traceDecodeClauses_result,
          deserializeClauses_encode u F _ _ (arrivesFields_of_unshadowed F hS.1 v.2)]
      rw [encodeFields, traceDecodeClauses, memberRecord_eq arg hs,
        traceDecodeFieldclause_eq t arg hd, Logged.log_follow_ok _ _ _ _ hx,
        Logged.log_follow_ok _ _ _ _ hxs, traceDecodeField_log t u T hU.2.1,
        traceDecodeClauses_log t u F hU.2.2, visitsFields, lines_append, Logged.log_done,
        List.append_nil]
end

/-- Encoding and then decoding log the same walk over the value, with the same
    field names: encoding names the types, decoding the pointers to them. What
    the object decoded into held before does not show. No class may have a
    member that is called like a local variable: the two functions would come
    to different things there. -/
theorem trace_decode_encode (t : Tracer) (u : Uninit) {α : Type} (T : Ty α) (hT : T.Supported)
    (hU : T.Unshadowed generatedLocals) (n : Str) (v w : α) (cache : NameCache)
    (hcache : T.CacheOk cache) :
    ∃ r cache', (traceField t T n v cache).result = .ok (r, cache') ∧
      (traceField t T n v cache).log = t.lines t.typeName (visits T n v) ∧
      (traceDecodeField t u T w r).log = t.lines t.pointerName (visits T n v) := by
  rcases serializeField_eq T hT n v cache hcache with ⟨cache', hresult, _⟩
  rw [← traceField_result t] at hresult
  have hencoder := traceField_log t T hT ((unshadowed_generatedLocals T).mp hU).1 n v cache hcache
  exact ⟨_, cache', hresult, hencoder, traceDecodeField_log t u T hU n w v⟩

/-- A logger at the level `trace`, and a demangler that fails. -/
def failingTracer : Tracer where
  threshold := .trace
  cxaDemangle _ := (-2, [])
  typeName _ := str "T"
  pointerName _ := str "PT"
  localTypeName _ := str "L"
  localPointerName _ := str "PL"

/-- The object of the repository's test. -/
theorem trace_decode_encode_outer1 : ∃ r cache',
    (traceField failingTracer myOuterClass (str "outer") outer1 .fresh).result = .ok (r, cache') ∧
    (traceField failingTracer myOuterClass (str "outer") outer1 .fresh).log =
      failingTracer.lines failingTracer.typeName (visits myOuterClass (str "outer") outer1) ∧
    (traceDecodeField failingTracer .zeroed myOuterClass (SortedMap.empty, ()) r).log =
      failingTracer.lines failingTracer.pointerName (visits myOuterClass (str "outer") outer1) :=
  trace_decode_encode failingTracer .zeroed myOuterClass myOuterClass_supported
    myOuterClass_unshadowed (str "outer") outer1 (SortedMap.empty, ()) .fresh
    (cacheOk_fresh myOuterClass)

end Nanoservices
