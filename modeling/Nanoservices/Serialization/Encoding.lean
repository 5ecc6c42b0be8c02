import Nanoservices.Library.Interleave
import Nanoservices.Serialization.Encoder

/-!
# The Format, and the Encoder Against It

`encode` says what a value looks like on the record side, as a function of the
type and the value alone: declared names, no caches, nothing that can fail.
This module connects the encoder to it. From then on the encoder is known by
`serializeField_eq` and never unfolded again.

The bridge is the invariant `CacheOk`: wherever names are cached, they are the
ones that splitting the stringized arguments gives. A fresh object satisfies
it and every call to the encoder keeps it, so it holds however often an object
has been serialized before. Together with `splitString_stringize`, which says
that splitting recovers the declared names one for one, it keeps the name
iterator in step with the members.

## Main definitions

* `memberRecord`: The record a clause writes.
* `encode`, `encodeFields`: The record tree of a value.
* `Ty.CacheOk`, `Fields.CachesOk`: Cached names are the split arguments.

## Theorems

* `splitString_stringize`: The split arguments are the declared names.
* `cacheOk_fresh`: Nothing cached is fine.
* `serializeListLoop_eq`, `serializeMapLoop_eq`: The loops map the item
  encoder over the container.
* `serializeObject_eq`: The names vector is the declared names, cached or not.
* `serializeField_eq`: The encoder returns `encode` and keeps the invariant.
* `serializerSerialize_eq`: The same for the member function of a class.
-/

namespace Nanoservices

open Interleave

/-- The record that the clause of a member writes, if `r` is the record of the
    member. A member that a local variable hides has a null record. -/
def memberRecord (arg : MacroArg) (r : Record) : Record :=
  if arg.shadowed serializeLocals then ⟨.nullValue, arg.name.chars, .null⟩ else r

mutual
/-- The record tree of a value under a field name. -/
def encode : {α : Type} → Ty α → Str → α → Record
  | _, .scalar s, n, v => ⟨s.recordType, n, .scalar s v⟩
  | _, .char, n, _ => ⟨.nullValue, n, .null⟩
  | _, .vector T, n, v => ⟨.list, n, .records (v.map (encode T listItemRecordName))⟩
  | _, @Ty.map _ _ _ K V, n, m => ⟨.map, n, .records (interleave (m.entries.map fun e =>
      (encode K mapItemKeyRecordName e.1, encode V mapItemValueRecordName e.2)))⟩
  | _, .cls F _, n, v => ⟨.serializableClass, n, .records (encodeFields F v)⟩
/-- The record trees of the members of a class, under their declared names. -/
def encodeFields : {σ : Type} → Fields σ → σ → List Record
  | _, .nil, _ => []
  | _, .cons arg T F, v =>
    memberRecord arg (encode T arg.name.chars v.1) :: encodeFields F v.2
end

/-- A member that no variable hides has the record of its value. -/
theorem memberRecord_eq (arg : MacroArg) (h : arg.shadowed serializeLocals = false) (r : Record) :
    memberRecord arg r = r := by
  rw [memberRecord, h, if_neg Bool.false_ne_true]

/-- A hidden one has a null record, whatever its value is. -/
theorem memberRecord_shadowed (arg : MacroArg) (h : arg.shadowed serializeLocals = true)
    (r : Record) : memberRecord arg r = ⟨.nullValue, arg.name.chars, .null⟩ := by
  rw [memberRecord, h, if_pos rfl]

/-- Only the name of the root depends on the field name; what is below it
    depends on the type and the value. -/
theorem encode_named {α : Type} (T : Ty α) (n n' : Str) (v : α) :
    encode T n' v = (encode T n v).named n' := by
  -- In every branch of the dispatch the name is only put into the root.
  cases T with
  | scalar s => rfl
  | char => rfl
  | vector T => rfl
  | map K V => rfl
  | cls F ctor => rfl

/-- The root has the field name. -/
theorem encode_fieldName {α : Type} (T : Ty α) (n : Str) (v : α) :
    (encode T n v).fieldName = n := by
  rw [encode_named T n n v]
  rfl

/-- A member is written under its name, hidden or not. -/
theorem memberRecord_fieldName (arg : MacroArg) (r : Record) (hr : r.fieldName = arg.name.chars) :
    (memberRecord arg r).fieldName = arg.name.chars := by
  unfold memberRecord
  -- The clause takes the name from the names vector and not from the member.
  split
  · rfl
  · exact hr

/-! ### Names -/

/-- Splitting the stringized arguments gives back the declared names. -/
theorem splitString_stringize (args : List MacroArg) :
    splitString (stringize args) comma true false = args.map fun a => a.name.chars :=
  -- A name is not blank at its ends, holds no comma and is not empty.
  splitString_join_padded comma (by decide) args _ _ _ (fun a _ => a.before_blank)
    (fun a _ => a.after_blank) (fun a _ => a.name.trimmed) (fun a _ => a.name.comma_not_mem)
    (fun a _ => a.name.ne_nil)

mutual
/-- Wherever names are cached, they are the split arguments of the class. -/
def Ty.CacheOk : {α : Type} → Ty α → NameCache → Prop
  | _, .scalar _, _ => True
  | _, .char, _ => True
  | _, .vector T, cache => ∀ c ∈ cache.inner, T.CacheOk c
  | _, @Ty.map _ _ _ K V, cache => Alternate K.CacheOk V.CacheOk cache.inner
  | _, .cls F _, cache =>
    (∀ names, cache.own = some names → names = splitString (stringize F.args) comma true false) ∧
      F.CachesOk cache.inner
/-- The same for the members of a class, each of which has its cache in its
    place. -/
def Fields.CachesOk : {σ : Type} → Fields σ → List NameCache → Prop
  | _, .nil, _ => True
  | _, .cons _ T F, caches => T.CacheOk (caches.headD .fresh) ∧ F.CachesOk caches.tail
end

mutual
/-- An object that has not been serialized caches nothing, and neither do the
    objects in it. -/
theorem cacheOk_fresh : ∀ {α : Type} (T : Ty α), T.CacheOk .fresh
  | _, .scalar _ => trivial
  | _, .char => trivial
  | _, .vector _ => by
      intro c hc
      exact absurd hc List.not_mem_nil
  | _, @Ty.map _ _ _ _ _ => trivial
  | _, .cls F _ => by
      refine ⟨?_, cachesOk_nil F⟩
      intro names h
      simp only [NameCache.fresh, NameCache.own_node, reduceCtorEq] at h
/-- So is nothing cached for the members of a class. -/
theorem cachesOk_nil : ∀ {σ : Type} (F : Fields σ), F.CachesOk []
  | _, .nil => trivial
  | _, .cons _ T F => ⟨cacheOk_fresh T, cachesOk_nil F⟩
end

/-! ### The loops -/

/-- The list loop encodes each item and keeps the caches of all of them. -/
theorem serializeListLoop_eq {α : Type} (item : Str → α → NameCache → Serialized)
    (enc : Str → α → Record) (Ok : NameCache → Prop) (hfresh : Ok .fresh)
    (hitem : ∀ n x cache, Ok cache → ∃ cache', item n x cache = .ok (enc n x, cache') ∧ Ok cache')
    (xs : List α) (caches : List NameCache) (h : ∀ c ∈ caches, Ok c) :
    ∃ caches', serializeListLoop item xs caches = .ok (xs.map (enc listItemRecordName), caches') ∧
      ∀ c ∈ caches', Ok c := by
  induction xs generalizing caches with
  | nil =>
      refine ⟨[], rfl, ?_⟩
      intro c hc
      exact absurd hc List.not_mem_nil
  | cons x xs ih =>
      -- An item that came after the last call has nothing cached.
      have hhead : Ok (caches.headD .fresh) := by
        cases caches with
        | nil => exact hfresh
        | cons c cs => exact h c List.mem_cons_self
      have htail : ∀ c ∈ caches.tail, Ok c := by
        intro c hc
        exact h c (List.mem_of_mem_tail hc)
      -- The first item is encoded, and the loop goes on with the caches behind
      -- its own.
      rcases hitem listItemRecordName x _ hhead with ⟨cache', hx, hok⟩
      rcases ih caches.tail htail with ⟨caches', hxs, hoks⟩
      refine ⟨cache' :: caches', ?_, List.forall_mem_cons.mpr ⟨hok, hoks⟩⟩
      simp only [serializeListLoop, hx, hxs, List.map_cons]

/-- The map loop encodes each key and value, from whatever caches the copies
    came with. -/
theorem serializeMapLoop_eq {κ ν : Type} (keyItem : Str → κ → NameCache → Serialized)
    (valueItem : Str → ν → NameCache → Serialized) (encK : Str → κ → Record)
    (encV : Str → ν → Record) (OkK OkV : NameCache → Prop) (hfreshK : OkK .fresh)
    (hfreshV : OkV .fresh)
    (hkey : ∀ n x cache, OkK cache → ∃ cache', keyItem n x cache = .ok (encK n x, cache'))
    (hvalue : ∀ n x cache, OkV cache → ∃ cache', valueItem n x cache = .ok (encV n x, cache'))
    (entries : List (κ × ν)) (caches : List NameCache) (h : Alternate OkK OkV caches) :
    serializeMapLoop keyItem valueItem entries caches = .ok (interleave (entries.map fun e =>
      (encK mapItemKeyRecordName e.1, encV mapItemValueRecordName e.2))) := by
  induction entries generalizing caches with
  | nil => rfl
  | cons e entries ih =>
      -- Two caches belong to an entry, as far as there are any.
      have hcaches := h.headD OkK OkV .fresh .fresh hfreshK hfreshV caches
      -- What is cached in the copies of the key and the value is lost with them.
      rcases hkey mapItemKeyRecordName e.1 _ hcaches.1 with ⟨ck, hk⟩
      rcases hvalue mapItemValueRecordName e.2 _ hcaches.2.1 with ⟨cv, hv⟩
      simp only [serializeMapLoop, hk, hv, ih _ hcaches.2.2, List.map_cons, interleave]

/-- The names vector is the declared names, whether it was cached or is made
    now, and it is cached afterwards. So the clauses always start at the
    beginning of the declared names. -/
theorem serializeObject_eq (args : List MacroArg)
    (clauses : List Str → List NameCache → Except Fault (List Record × List NameCache))
    (rs : List Record) (cache : NameCache) (caches' : List NameCache)
    (hown : ∀ names, cache.own = some names →
      names = splitString (stringize args) comma true false)
    (hclauses : clauses (args.map fun a => a.name.chars) cache.inner = .ok (rs, caches')) :
    serializeObject args clauses cache =
      .ok (rs, .node (some (splitString (stringize args) comma true false)) caches') := by
  rw [← splitString_stringize] at hclauses
  cases howned : cache.own with
  | none => simp only [serializeObject, howned, hclauses]
  | some names =>
      -- What is cached is what splitting would give.
      rw [hown names howned] at howned
      simp only [serializeObject, howned, hclauses]

/-! ### The encoder -/

/-- The items of a vector are never `std::vector<char>`, since `char` is not
    supported. -/
theorem isVectorChar_of_supported : ∀ {α : Type} (T : Ty α), T.Supported → T.isVectorChar = false
  | _, .scalar _, _ => rfl
  | _, .char, _ => rfl
  | _, .vector (.scalar _), _ => rfl
  | _, .vector (.vector _), _ => rfl
  | _, .vector (@Ty.map _ _ _ _ _), _ => rfl
  | _, .vector (.cls _ _), _ => rfl
  | _, @Ty.map _ _ _ _ _, _ => rfl
  | _, .cls _ _, _ => rfl

/-- A clause writes the record of its member, or a null record, and keeps the
    cache of the member valid. -/
theorem serializeFieldclause_ok (arg : MacroArg) (cache : NameCache) (member : Serialized)
    (Ok : NameCache → Prop) (hcache : Ok cache) (r : Record)
    (hmember : ∃ cache', member = .ok (r, cache') ∧ Ok cache') :
    ∃ cache', serializeFieldclause arg arg.name.chars cache member =
      .ok (memberRecord arg r, cache') ∧ Ok cache' := by
  unfold serializeFieldclause memberRecord
  split
  · -- The member is not touched.
    exact ⟨cache, rfl, hcache⟩
  · exact hmember

mutual
/-- The encoder returns the record tree of the value, whatever valid names are
    cached, and leaves valid names cached. -/
theorem serializeField_eq : ∀ {α : Type} (T : Ty α), T.Supported →
    ∀ (n : Str) (v : α) (cache : NameCache), T.CacheOk cache →
      ∃ cache', serializeField T n v cache = .ok (encode T n v, cache') ∧ T.CacheOk cache'
  | _, .scalar s, _, n, v, cache, _ => ⟨cache, by simp only [serializeField, encode], trivial⟩
  | _, .vector T, hT, n, v, cache, hcache => by
      rcases serializeListLoop_eq (serializeField T) (encode T) T.CacheOk (cacheOk_fresh T)
        (serializeField_eq T hT) v cache.inner hcache with ⟨caches', hloop, hok⟩
      refine ⟨.node none caches', ?_, hok⟩
      -- The item type is not `char`, so the byte array branch is not taken.
      simp only [serializeField, serializeListField, isVectorChar_of_supported T hT,
        Bool.false_eq_true, if_false, hloop, encode]
  | _, @Ty.map _ _ _ K V, hT, n, m, cache, hcache => by
      have hkey : ∀ n x cache, K.CacheOk cache →
          ∃ cache', serializeField K n x cache = .ok (encode K n x, cache') := by
        intro n x cache h
        rcases serializeField_eq K hT.1 n x cache h with ⟨cache', hx, _⟩
        exact ⟨cache', hx⟩
      have hvalue : ∀ n x cache, V.CacheOk cache →
          ∃ cache', serializeField V n x cache = .ok (encode V n x, cache') := by
        intro n x cache h
        rcases serializeField_eq V hT.2 n x cache h with ⟨cache', hx, _⟩
        exact ⟨cache', hx⟩
      -- Keys and values are copies, so the caches in the map stay as they are.
      refine ⟨cache, ?_, hcache⟩
      simp only [serializeField, serializeMapField, encode,
        serializeMapLoop_eq _ _ (encode K) (encode V) K.CacheOk V.CacheOk (cacheOk_fresh K)
          (cacheOk_fresh V) hkey hvalue m.entries cache.inner hcache]
  | _, .cls F _, hT, n, v, cache, hcache => by
      rcases serializeClauses_eq F hT v cache.inner hcache.2 with ⟨caches', hclauses, hok⟩
      -- The clauses walk the declared names, which are cached from now on.
      have hobj := serializeObject_eq F.args (serializeClauses F v) _ cache caches' hcache.1
        hclauses
      refine ⟨.node (some (splitString (stringize F.args) comma true false)) caches', ?_, ?_⟩
      · simp only [serializeField, hobj, encode]
      · refine ⟨?_, hok⟩
        intro names hnames
        rw [NameCache.own_node, Option.some.injEq] at hnames
        exact hnames.symm
/-- The macro expansion walks the declared names and the members in step. -/
theorem serializeClauses_eq : ∀ {σ : Type} (F : Fields σ), F.Supported →
    ∀ (v : σ) (caches : List NameCache), F.CachesOk caches →
      ∃ caches', serializeClauses F v (F.args.map fun a => a.name.chars) caches =
        .ok (encodeFields F v, caches') ∧ F.CachesOk caches'
  | _, .nil, _, _, _, _ => ⟨[], rfl, trivial⟩
  | _, .cons arg T F, hF, v, caches, hcaches => by
      -- The name that the iterator is at is the one of the member.
      have hmember := serializeField_eq T hF.1 arg.name.chars v.1 _ hcaches.1
      rcases serializeFieldclause_ok arg _ _ T.CacheOk hcaches.1 _ hmember with ⟨cache', hx, hok⟩
      rcases serializeClauses_eq F hF.2 v.2 _ hcaches.2 with ⟨caches', hxs, hoks⟩
      refine ⟨cache' :: caches', ?_, hok, hoks⟩
      simp only [Fields.args, List.map_cons, serializeClauses, hx, hxs, encodeFields]
end

/-- The member function of a class returns the records of its members. -/
theorem serializerSerialize_eq {σ : Type} (F : Fields σ) (hF : F.Supported) (ctor v : σ)
    (cache : NameCache) (hcache : (Ty.cls F ctor).CacheOk cache) :
    ∃ cache', serializerSerialize F v cache = .ok (encodeFields F v, cache') ∧
      (Ty.cls F ctor).CacheOk cache' := by
  -- The member function is what `serialize_field` calls on the class.
  rcases serializeField_eq (.cls F ctor) hF [] v cache hcache with ⟨cache', hfield, hok⟩
  refine ⟨cache', ?_, hok⟩
  unfold serializerSerialize
  simp only [serializeField, encode] at hfield
  -- The call on the class has returned, so the member function has.
  cases hobj : serializeObject F.args (serializeClauses F v) cache with
  | error f => simp only [hobj, reduceCtorEq] at hfield
  | ok p =>
      simp only [hobj, Except.ok.injEq, Prod.mk.injEq, Record.mk.injEq, Data.records.injEq,
        true_and] at hfield
      exact congrArg Except.ok (Prod.ext hfield.1 hfield.2)

end Nanoservices
