import Nanoservices.Library.Interleave
import Nanoservices.Serialization.Decoder

/-!
# Records the Decoder Did Not Make

The decoder on trees that need not come from the encoder. It never looks at a
tag: what it reads a record as is fixed by the type it decodes, and reading the
wrong thing is undefined behaviour. `Readable` is the condition that this does
not happen. At every node the decoder visits, the data is of the kind the type
reads, and a class has at least as many records as members; further records,
tags and names do not matter, and neither does what is in the record of a member
that a variable of the decoder hides. Where the tags announce the data, `Tagged`
says the same in terms of tags.

The one malformation the decoder detects is a map that ends after a key.
`Readable true` asks in addition that no visited map does, and it describes
exactly the trees on which decoding returns (`returns_iff`). On a tree that
matches the type in tags and arities, a truncated map is visited wherever it
stands, unless it stands in the record of a hidden member. So the exception is
thrown exactly if some visited map node has an odd number of children, and where
there are no hidden members exactly if some map node has.

## Main definitions

* `Returns`, `Throws`, `Safe`: How a decoder's call ends.
* `Readable`, `ReadableFields`: Every read finds what it reads.
* `Tagged`, `TaggedFields`: Every tag announces what is read.
* `Shaped`, `ShapedFields`: Tags, data and class arities are those of the type.
* `EveryVisited`, `EveryVisitedFields`: A property of all visited nodes.
* `TruncationDetected`: The exception is thrown exactly for truncated maps.

## Theorems

* `deserializeListLoop_returns_iff`, `deserializeMapLoop_returns_iff`: When the
  loops return.
* `returns_iff`: Decoding returns exactly on a whole readable tree.
* `safe_of_readable`: Decoding a readable tree returns or throws.
* `deserializeField_safe`: No undefined behaviour where the tags fit.
* `everyVisited_iff_of_unshadowed`: Without hidden members all nodes are visited.
* `readable_iff_of_shaped`: On a shaped tree only truncated maps are in the way.
* `truncationDetected_iff`: When the exception is thrown exactly for truncated
  maps.
-/

namespace Nanoservices

open Interleave

/-- The call returns, with some value in the target. -/
def Returns {α : Type} (d : Decoded α) : Prop := ∃ v, d = .ok v

/-- The call throws `ns_exception`, with some text and some value left in the
    target. -/
def Throws {α : Type} (d : Decoded α) : Prop := ∃ message w, d = .error (.nsException message, w)

/-- The call returns or throws, without undefined behaviour. -/
def Safe {α : Type} (d : Decoded α) : Prop := Returns d ∨ Throws d

/-- A call that returns does so. -/
theorem returns_ok {α : Type} (v : α) : Returns (.ok v : Decoded α) := ⟨v, rfl⟩

/-- A fault is no return. -/
theorem not_returns_error {α : Type} (e : Fault × α) : ¬ Returns (.error e : Decoded α) := by
  rintro ⟨v, h⟩
  simp only [reduceCtorEq] at h

/-- A return is no exception. -/
theorem not_throws_ok {α : Type} (v : α) : ¬ Throws (.ok v : Decoded α) := by
  rintro ⟨message, w, h⟩
  simp only [reduceCtorEq] at h

mutual
/-- At every node that decoding visits, the data is of the kind the type reads,
    and a class has a record for each member. With `whole`, no map ends after a
    key. -/
def Readable (whole : Bool) : {α : Type} → Ty α → Record → Prop
  | _, .scalar s, r => ∃ x, r.data = .scalar s x
  | _, .char, _ => True
  | _, .vector T, r => ∃ rs, r.data = .records rs ∧ ∀ c ∈ rs, Readable whole T c
  | _, @Ty.map _ _ _ K V, r => ∃ rs, r.data = .records rs ∧
      Alternate (Readable whole K) (Readable whole V) rs ∧ (whole = true → Even rs.length)
  | _, .cls F _, r => ∃ rs, r.data = .records rs ∧ ReadableFields whole F rs
/-- The same for the members of a class: there is a record for each. -/
def ReadableFields (whole : Bool) : {σ : Type} → Fields σ → List Record → Prop
  | _, .nil, _ => True
  -- The record of a hidden member must be there, but it is not read.
  | _, .cons arg T F, rs => ∃ c cs, rs = c :: cs ∧
      (arg.shadowed deserializeLocals = false → Readable whole T c) ∧ ReadableFields whole F cs
end

mutual
/-- The tree has the tags of the type, data of the kinds they announce and a
    record for each class member. Maps may have any number of children, keys at
    even positions and values at odd ones. -/
def Shaped : {α : Type} → Ty α → Record → Prop
  | _, .scalar s, r => r.type = s.recordType ∧ ∃ x, r.data = .scalar s x
  | _, .char, r => r.type = .nullValue ∧ r.data = .null
  | _, .vector T, r => r.type = .list ∧ ∃ rs, r.data = .records rs ∧ ∀ c ∈ rs, Shaped T c
  | _, @Ty.map _ _ _ K V, r => r.type = .map ∧ ∃ rs, r.data = .records rs ∧
      Alternate (Shaped K) (Shaped V) rs
  | _, .cls F _, r => r.type = .serializableClass ∧ ∃ rs, r.data = .records rs ∧ ShapedFields F rs
/-- The same for the members of a class: there are as many records as members,
    hidden ones among them. -/
def ShapedFields : {σ : Type} → Fields σ → List Record → Prop
  | _, .nil, rs => rs = []
  | _, .cons _ T F, rs => ∃ c cs, rs = c :: cs ∧ Shaped T c ∧ ShapedFields F cs
end

/-! ### The loops -/

/-- The list loop returns when each of its items does. -/
theorem deserializeListLoop_returns_iff {α : Type} (t : α) (item : α → Record → Decoded α)
    (rs : List Record) (target : List α) :
    Returns (deserializeListLoop t item target rs) ↔ ∀ r ∈ rs, Returns (item t r) := by
  induction rs generalizing target with
  | nil =>
      refine iff_of_true (returns_ok target) ?_
      intro r hr
      exact absurd hr List.not_mem_nil
  | cons r rs ih =>
      rw [List.forall_mem_cons, deserializeListLoop]
      cases hr : item t r with
      | error e =>
          -- The exception leaves the loop, whatever comes after it.
          refine iff_of_false (not_returns_error _) ?_
          intro h
          exact not_returns_error e h.1
      | ok x =>
          -- The item is pushed, and the rest of the loop decides.
          rw [ih (target ++ [x])]
          constructor
          · intro h
            exact ⟨returns_ok x, h⟩
          · intro h
            exact h.2

/-- The list loop is safe if each of its items is. -/
theorem deserializeListLoop_safe {α : Type} (t : α) (item : α → Record → Decoded α)
    (rs : List Record) (h : ∀ r ∈ rs, Safe (item t r)) (target : List α) :
    Safe (deserializeListLoop t item target rs) := by
  induction rs generalizing target with
  | nil => exact Or.inl (returns_ok target)
  | cons r rs ih =>
      rw [List.forall_mem_cons] at h
      unfold deserializeListLoop
      rcases h.1 with ⟨x, hx⟩ | ⟨message, w, hw⟩
      · rw [hx]
        exact ih h.2 _
      · -- What the item threw, the loop throws.
        rw [hw]
        exact Or.inr ⟨message, target, rfl⟩

/-- The map loop returns when its keys and values do and no key is left
    over. -/
theorem deserializeMapLoop_returns_iff {κ ν : Type} [LinearOrder κ] (n : Str) (k₀ : κ) (v₀ : ν)
    (keyItem : κ → Record → Decoded κ) (valueItem : ν → Record → Decoded ν) (rs : List Record)
    (target : SortedMap κ ν) :
    Returns (deserializeMapLoop n k₀ v₀ keyItem valueItem target rs) ↔
      Alternate (fun r => Returns (keyItem k₀ r)) (fun r => Returns (valueItem v₀ r)) rs ∧
        Even rs.length := by
  induction rs using pairInduction generalizing target with
  | nil => exact iff_of_true (returns_ok target) ⟨trivial, Even.zero⟩
  | single kr =>
      -- Whether the key decodes or not, the loop does not return.
      have hstuck : ¬ Returns (deserializeMapLoop n k₀ v₀ keyItem valueItem target [kr]) := by
        unfold deserializeMapLoop
        cases keyItem k₀ kr with
        | error e => exact not_returns_error _
        | ok k => exact not_returns_error _
      refine iff_of_false hstuck ?_
      intro h
      exact Nat.not_even_one h.2
  | pair kr vr rs ih =>
      rw [deserializeMapLoop, Alternate, List.length_cons, List.length_cons, Nat.even_add_one,
        Nat.even_add_one, not_not]
      -- The key and the value have to be decoded before the rest of the loop is
      -- come to.
      cases hk : keyItem k₀ kr with
      | error e =>
          refine iff_of_false (not_returns_error _) ?_
          intro h
          exact not_returns_error e h.1.1
      | ok k =>
          cases hv : valueItem v₀ vr with
          | error e =>
              refine iff_of_false (not_returns_error _) ?_
              intro h
              exact not_returns_error e h.1.2.1
          | ok v =>
              have hrest := ih (target.insert k v)
              constructor
              · intro h
                rcases hrest.mp h with ⟨halternate, heven⟩
                exact ⟨⟨returns_ok k, returns_ok v, halternate⟩, heven⟩
              · rintro ⟨⟨_, _, halternate⟩, heven⟩
                exact hrest.mpr ⟨halternate, heven⟩

/-- The map loop is safe if its keys and values are, also if a key is left over
    at the end. -/
theorem deserializeMapLoop_safe {κ ν : Type} [LinearOrder κ] (n : Str) (k₀ : κ) (v₀ : ν)
    (keyItem : κ → Record → Decoded κ) (valueItem : ν → Record → Decoded ν) (rs : List Record)
    (h : Alternate (fun r => Safe (keyItem k₀ r)) (fun r => Safe (valueItem v₀ r)) rs)
    (target : SortedMap κ ν) :
    Safe (deserializeMapLoop n k₀ v₀ keyItem valueItem target rs) := by
  induction rs using pairInduction generalizing target with
  | nil => exact Or.inl (returns_ok target)
  | single kr =>
      unfold deserializeMapLoop
      rcases h with ⟨k, hk⟩ | ⟨message, w, hw⟩
      · -- The key is fine and nothing follows it: this is the exception.
        rw [hk]
        exact Or.inr ⟨_, target, rfl⟩
      · rw [hw]
        exact Or.inr ⟨message, target, rfl⟩
  | pair kr vr rs ih =>
      unfold deserializeMapLoop
      -- What the key or the value throws, the loop throws.
      rcases h.1 with ⟨k, hk⟩ | ⟨message, w, hw⟩
      · rcases h.2.1 with ⟨v, hv⟩ | ⟨message, w, hw⟩
        · rw [hk, hv]
          exact ih h.2.2 _
        · rw [hk, hw]
          exact Or.inr ⟨message, target, rfl⟩
      · rw [hw]
        exact Or.inr ⟨message, target, rfl⟩

/-! ### The decoder -/

/-- What does not hold of undefined behaviour holds of a decoder that begins
    with a record vector exactly if there is one and it holds of the rest. -/
theorem readRecords_iff {α : Type} (Q : Decoded α → Prop) (r : Record) (P : List Record → Prop)
    (target : α) (k : List Record → Decoded α) (hQ : ∀ e, ¬ Q (undefinedAt e target))
    (hk : ∀ rs, Q (k rs) ↔ P rs) :
    Q (match r.data.readRecords with
      | .error e => undefinedAt e target
      | .ok rs => k rs) ↔ ∃ rs, r.data = .records rs ∧ P rs := by
  -- There is a record vector, or the read of one is the fault.
  cases h : r.data.readRecords with
  | error e =>
      refine iff_of_false (hQ e) ?_
      rintro ⟨rs, hrs, _⟩
      rw [(readRecords_eq_ok_iff r.data rs).mpr hrs] at h
      simp only [reduceCtorEq] at h
  | ok rs =>
      rw [(readRecords_eq_ok_iff r.data rs).mp h]
      simp only [Data.records.injEq, exists_eq_left', hk]

/-- Of a class, the record of the first member and those of the others are to be
    read. -/
theorem readableFields_cons_iff (whole : Bool) {α σ : Type} (arg : MacroArg) (T : Ty α)
    (F : Fields σ) (r : Record) (rs : List Record) :
    ReadableFields whole (.cons arg T F) (r :: rs) ↔
      (arg.shadowed deserializeLocals = false → Readable whole T r) ∧
        ReadableFields whole F rs := by
  simp only [ReadableFields, List.cons.injEq, and_assoc, exists_and_left, exists_eq_left']

/-- The clause of a member returns if the member is hidden or decoding it
    returns. -/
theorem deserializeFieldclause_returns_iff {α : Type} (arg : MacroArg) (target : α)
    (d : Decoded α) : Returns (deserializeFieldclause arg target d) ↔
      (arg.shadowed deserializeLocals = false → Returns d) := by
  cases h : arg.shadowed deserializeLocals with
  | false =>
      rw [deserializeFieldclause_eq arg h]
      exact ⟨fun hd _ => hd, fun hd => hd rfl⟩
  | true =>
      rw [deserializeFieldclause_shadowed arg h]
      refine iff_of_true (returns_ok target) ?_
      intro hfalse
      exact Bool.noConfusion hfalse

/-- The clause of a member is safe if the member is hidden or decoding it is. -/
theorem deserializeFieldclause_safe {α : Type} (arg : MacroArg) (target : α) (d : Decoded α)
    (hd : arg.shadowed deserializeLocals = false → Safe d) :
    Safe (deserializeFieldclause arg target d) := by
  cases h : arg.shadowed deserializeLocals with
  | false =>
      rw [deserializeFieldclause_eq arg h]
      exact hd h
  | true =>
      rw [deserializeFieldclause_shadowed arg h]
      exact Or.inl (returns_ok target)

mutual
/-- Decoding returns exactly on the trees in which every read finds what it
    reads and no map ends after a key. The target does not matter. -/
theorem returns_iff (u : Uninit) : ∀ {α : Type} (T : Ty α), T.Supported → ∀ (w : α) (r : Record),
    Returns (deserializeField u T w r) ↔ Readable true T r
  | _, .scalar s, _, w, r => by
      rw [deserializeField, Readable]
      cases h : r.data.readScalar s with
      | error e =>
          refine iff_of_false (not_returns_error _) ?_
          rintro ⟨x, hx⟩
          rw [(readScalar_eq_ok_iff s r.data x).mpr hx] at h
          simp only [reduceCtorEq] at h
      | ok x =>
          have hx := (readScalar_eq_ok_iff s r.data x).mp h
          exact iff_of_true (returns_ok x) ⟨x, hx⟩
  | _, .vector T, hT, w, r => by
      rw [deserializeField, deserializeListField, Readable]
      refine readRecords_iff Returns r _ w _ (fun _ => not_returns_error _) ?_
      intro rs
      rw [deserializeListLoop_returns_iff]
      refine forall₂_congr ?_
      intro c _
      exact returns_iff u T hT _ c
  | _, @Ty.map _ _ _ K V, hT, w, r => by
      rw [deserializeField, deserializeMapField, Readable]
      refine readRecords_iff Returns r _ w _ (fun _ => not_returns_error _) ?_
      intro rs
      -- What returns as a key, and as a value, is known of the types below.
      have hK :
          (fun r => Returns (deserializeField u K (K.defaultInit u) r)) = Readable true K := by
        ext r
        exact returns_iff u K hT.1 _ r
      have hV :
          (fun r => Returns (deserializeField u V (V.defaultInit u) r)) = Readable true V := by
        ext r
        exact returns_iff u V hT.2 _ r
      rw [deserializeMapLoop_returns_iff, hK, hV, forall_prop_of_true rfl]
  | _, .cls F _, hT, w, r => by
      rw [deserializeField, Readable]
      refine readRecords_iff Returns r _ w _ (fun _ => not_returns_error _) ?_
      intro rs
      exact returnsClauses_iff u F hT w rs
/-- The same for the members of a class. -/
theorem returnsClauses_iff (u : Uninit) : ∀ {σ : Type} (F : Fields σ), F.Supported →
    ∀ (w : σ) (rs : List Record),
      Returns (deserializeClauses u F w rs) ↔ ReadableFields true F rs
  | _, .nil, _, w, rs => iff_of_true (returns_ok w) trivial
  | _, .cons _ T F, _, w, [] => by
      -- The iterator is dereferenced at the end.
      rw [deserializeClauses, ReadableFields]
      refine iff_of_false (not_returns_error _) ?_
      rintro ⟨c, cs, h, _⟩
      exact absurd h (List.cons_ne_nil c cs).symm
  | _, .cons arg T F, hF, w, r :: rs => by
      rw [readableFields_cons_iff, ← returns_iff u T hF.1 w.1 r,
        ← deserializeFieldclause_returns_iff arg w.1, ← returnsClauses_iff u F hF.2 w.2 rs,
        deserializeClauses]
      -- The first member and then the others, each of which may be where it ends.
      cases hx : deserializeFieldclause arg w.1 (deserializeField u T w.1 r) with
      | error e =>
          refine iff_of_false (not_returns_error _) ?_
          intro h
          exact not_returns_error e h.1
      | ok x =>
          cases hxs : deserializeClauses u F w.2 rs with
          | error e =>
              refine iff_of_false (not_returns_error _) ?_
              intro h
              exact not_returns_error e h.2
          | ok xs => exact iff_of_true (returns_ok (x, xs)) ⟨returns_ok x, returns_ok xs⟩
end

mutual
/-- On a readable tree decoding returns or throws, whatever the target holds
    and whatever the tree is like otherwise. -/
theorem safe_of_readable (u : Uninit) : ∀ {α : Type} (T : Ty α), T.Supported →
    ∀ (w : α) (r : Record), Readable false T r → Safe (deserializeField u T w r)
  | _, .scalar s, _, w, r, h => by
      rcases h with ⟨x, hx⟩
      rw [deserializeField, hx, readScalar_scalar]
      exact Or.inl (returns_ok x)
  | _, .vector T, hT, w, r, h => by
      rcases h with ⟨rs, hrs, hitems⟩
      have hsafe : ∀ c ∈ rs, Safe (deserializeField u T (T.defaultInit u) c) := by
        intro c hc
        -- Items are decoded into objects made on the spot, whatever those hold.
        exact safe_of_readable u T hT _ c (hitems c hc)
      rw [deserializeField, deserializeListField, hrs, readRecords_records]
      exact deserializeListLoop_safe _ _ rs hsafe w
  | _, @Ty.map _ _ _ K V, hT, w, r, h => by
      rcases h with ⟨rs, hrs, hitems, _⟩
      have hsafe : Alternate (fun c => Safe (deserializeField u K (K.defaultInit u) c))
          (fun c => Safe (deserializeField u V (V.defaultInit u) c)) rs := by
        refine hitems.imp _ _ _ _ rs ?_ ?_
        · intro c _ hc
          exact safe_of_readable u K hT.1 _ c hc
        · intro c _ hc
          exact safe_of_readable u V hT.2 _ c hc
      rw [deserializeField, deserializeMapField, hrs, readRecords_records]
      exact deserializeMapLoop_safe _ _ _ _ _ rs hsafe w
  | _, .cls F _, hT, w, r, h => by
      rcases h with ⟨rs, hrs, hmembers⟩
      rw [deserializeField, hrs, readRecords_records]
      exact safeClauses_of_readable u F hT w rs hmembers
/-- The same for the members of a class. -/
theorem safeClauses_of_readable (u : Uninit) : ∀ {σ : Type} (F : Fields σ), F.Supported →
    ∀ (w : σ) (rs : List Record), ReadableFields false F rs → Safe (deserializeClauses u F w rs)
  | _, .nil, _, w, _, _ => Or.inl (returns_ok w)
  | _, .cons arg T F, hF, w, rs, h => by
      rcases h with ⟨c, cs, rfl, hc, hcs⟩
      -- The record of a hidden member is not read, so it may be anything.
      have hmember : Safe (deserializeFieldclause arg w.1 (deserializeField u T w.1 c)) := by
        refine deserializeFieldclause_safe arg w.1 _ ?_
        intro hshown
        exact safe_of_readable u T hF.1 w.1 c (hc hshown)
      unfold deserializeClauses
      rcases hmember with ⟨x, hx⟩ | ⟨message, x, hx⟩
      · rw [hx]
        rcases safeClauses_of_readable u F hF.2 w.2 cs hcs with ⟨xs, hxs⟩ | ⟨message, xs, hxs⟩
        · rw [hxs]
          exact Or.inl (returns_ok (x, xs))
        · rw [hxs]
          exact Or.inr ⟨message, (x, xs), rfl⟩
      · rw [hx]
        exact Or.inr ⟨message, (x, w.2), rfl⟩
end

/-! ### Tagged trees -/

mutual
/-- At every node that decoding visits, the tag announces data of the kind the
    type reads, and a class has a record for each member. A class, a vector and
    a map read the same kind of data. -/
def Tagged : {α : Type} → Ty α → Record → Prop
  | _, .scalar s, r => r.type = s.recordType
  | _, .char, _ => True
  | _, .vector T, r => r.type.isContainer = true ∧
      ∀ rs, r.data = .records rs → ∀ c ∈ rs, Tagged T c
  | _, @Ty.map _ _ _ K V, r => r.type.isContainer = true ∧
      ∀ rs, r.data = .records rs → Alternate (Tagged K) (Tagged V) rs
  | _, .cls F _, r => r.type.isContainer = true ∧ ∀ rs, r.data = .records rs → TaggedFields F rs
/-- The same for the members of a class, of which the hidden ones may have any
    record. -/
def TaggedFields : {σ : Type} → Fields σ → List Record → Prop
  | _, .nil, _ => True
  | _, .cons arg T F, rs => ∃ c cs, rs = c :: cs ∧
      (arg.shadowed deserializeLocals = false → Tagged T c) ∧ TaggedFields F cs
end

mutual
/-- Where every tag announces its data, a tag that fits the type is all that a
    read needs. -/
theorem readable_of_tagged : ∀ {α : Type} (T : Ty α) (r : Record),
    r.Everywhere (fun c => c.type.Announces c.data) → Tagged T r → Readable false T r
  | _, .scalar s, r, ha, h => announces_scalar r.type s r.data ha.root h
  | _, .char, _, _, _ => trivial
  | _, .vector T, r, ha, h => by
      rcases announces_records r.type r.data ha.root h.1 with ⟨rs, hrs⟩
      refine ⟨rs, hrs, ?_⟩
      intro c hc
      exact readable_of_tagged T c (ha.child rs hrs c hc) (h.2 rs hrs c hc)
  | _, @Ty.map _ _ _ K V, r, ha, h => by
      rcases announces_records r.type r.data ha.root h.1 with ⟨rs, hrs⟩
      refine ⟨rs, hrs, (h.2 rs hrs).imp _ _ _ _ rs ?_ ?_, ?_⟩
      · intro c hc
        exact readable_of_tagged K c (ha.child rs hrs c hc)
      · intro c hc
        exact readable_of_tagged V c (ha.child rs hrs c hc)
      · -- Whether the map ends after a key is not asked here.
        intro hf
        exact absurd hf Bool.false_ne_true
  | _, .cls F _, r, ha, h => by
      rcases announces_records r.type r.data ha.root h.1 with ⟨rs, hrs⟩
      exact ⟨rs, hrs, readableFields_of_tagged F rs (ha.child rs hrs) (h.2 rs hrs)⟩
/-- The same for the members of a class. -/
theorem readableFields_of_tagged : ∀ {σ : Type} (F : Fields σ) (rs : List Record),
    (∀ c ∈ rs, c.Everywhere fun c => c.type.Announces c.data) → TaggedFields F rs →
      ReadableFields false F rs
  | _, .nil, _, _, _ => trivial
  | _, .cons _ T F, rs, ha, h => by
      rcases h with ⟨c, cs, hrs, hc, hcs⟩
      rw [hrs, List.forall_mem_cons] at ha
      have hrest := readableFields_of_tagged F cs ha.2 hcs
      refine ⟨c, cs, hrs, ?_, hrest⟩
      intro hshown
      exact readable_of_tagged T c ha.1 (hc hshown)
end

/-- Decoding returns or throws the exception, into any target, where every tag
    announces its data, every visited tag announces what the type reads and no
    class is short of records. -/
theorem deserializeField_safe (u : Uninit) {α : Type} (T : Ty α) (hT : T.Supported) (target : α)
    (r : Record) (ha : r.Everywhere fun c => c.type.Announces c.data) (h : Tagged T r) :
    Safe (deserializeField u T target r) :=
  safe_of_readable u T hT target r (readable_of_tagged T r ha h)

/-- A list of integers whose one item has a name of its own, decoded into a
    vector that is not empty. -/
theorem deserializeField_safe_list :
    Safe (deserializeField .zeroed (.vector (.scalar .int32)) [1]
      ⟨.list, [], .records [⟨.signedInt32, str "any", .scalar .int32 2⟩]⟩) := by
  refine deserializeField_safe .zeroed (.vector (.scalar .int32)) trivial [1] _ ?_ ?_
  · refine .records _ _ _ (Or.inr (Or.inl rfl)) ?_
    rw [List.forall_mem_singleton]
    exact .node _ rfl fun rs hrs => by simp only [reduceCtorEq] at hrs
  · refine ⟨rfl, ?_⟩
    intro rs hrs
    rw [← Data.records.inj hrs, List.forall_mem_singleton]
    exact rfl

/-- An integer field does not look at the tag: a null record makes the decoder
    follow a null pointer. -/
theorem not_safe_nullValue :
    ¬ ∀ (u : Uninit) {α : Type} (T : Ty α), T.Supported → ∀ (target : α) (r : Record),
      (r.Everywhere fun c => c.type.Announces c.data) → Safe (deserializeField u T target r) := by
  intro h
  have hsafe := h .zeroed (.scalar .int32) trivial 0 ⟨.nullValue, [], .null⟩
    (.node _ rfl fun rs hrs => by simp only [reduceCtorEq] at hrs)
  -- The call neither returns nor throws, but dereferences null.
  rcases hsafe with ⟨v, hv⟩ | ⟨message, w, hw⟩
  · simp only [deserializeField, Data.readScalar, undefinedAt, reduceCtorEq] at hv
  · simp only [deserializeField, Data.readScalar, undefinedAt, Except.error.injEq, Prod.mk.injEq,
      reduceCtorEq, false_and] at hw

/-! ### Shaped trees -/

mutual
/-- A tree that has the shape of the type can be read as one of it, apart from
    maps that end after a key. -/
theorem readable_of_shaped : ∀ {α : Type} (T : Ty α) (r : Record), Shaped T r → Readable false T r
  | _, .scalar _, _, h => h.2
  | _, .char, _, _ => trivial
  | _, .vector T, _, h => by
      rcases h with ⟨_, rs, hrs, h⟩
      refine ⟨rs, hrs, ?_⟩
      intro c hc
      exact readable_of_shaped T c (h c hc)
  | _, @Ty.map _ _ _ K V, _, h => by
      rcases h with ⟨_, rs, hrs, h⟩
      refine ⟨rs, hrs, h.imp _ _ _ _ rs ?_ ?_, ?_⟩
      · intro c _
        exact readable_of_shaped K c
      · intro c _
        exact readable_of_shaped V c
      · intro hf
        exact absurd hf Bool.false_ne_true
  | _, .cls F _, _, h => by
      rcases h with ⟨_, rs, hrs, h⟩
      exact ⟨rs, hrs, readableFields_of_shaped F rs h⟩
/-- The same for the members of a class. -/
theorem readableFields_of_shaped : ∀ {σ : Type} (F : Fields σ) (rs : List Record),
    ShapedFields F rs → ReadableFields false F rs
  | _, .nil, _, _ => trivial
  | _, .cons _ T F, _, h => by
      rcases h with ⟨c, cs, hrs, hc, hcs⟩
      have hrest := readableFields_of_shaped F cs hcs
      refine ⟨c, cs, hrs, ?_, hrest⟩
      intro _
      exact readable_of_shaped T c hc
end

/-- What is left of the definition at a node whose children are known. -/
theorem truncatedMap_iff (r : Record) (rs : List Record) (hr : r.data = .records rs) :
    r.TruncatedMap ↔ r.type = .map ∧ ¬ Even rs.length := by
  simp only [Record.TruncatedMap, hr, Data.records.injEq, exists_eq_left']

mutual
/-- The property holds at every node that decoding visits: at all of them, but
    for the records of hidden members and what is below. -/
def EveryVisited (P : Record → Prop) : {α : Type} → Ty α → Record → Prop
  | _, .scalar _, r => P r
  | _, .char, r => P r
  | _, .vector T, r => P r ∧ ∀ rs, r.data = .records rs → ∀ c ∈ rs, EveryVisited P T c
  | _, @Ty.map _ _ _ K V, r => P r ∧
      ∀ rs, r.data = .records rs → Alternate (EveryVisited P K) (EveryVisited P V) rs
  | _, .cls F _, r => P r ∧ ∀ rs, r.data = .records rs → EveryVisitedFields P F rs
/-- The same for the members of a class. -/
def EveryVisitedFields (P : Record → Prop) : {σ : Type} → Fields σ → List Record → Prop
  | _, .nil, _ => True
  | _, .cons arg T F, rs => ∀ c cs, rs = c :: cs →
      (arg.shadowed deserializeLocals = false → EveryVisited P T c) ∧ EveryVisitedFields P F cs
end

/-- Of a class, the record of the first member and those of the others are
    visited. -/
theorem everyVisitedFields_cons_iff (P : Record → Prop) {α σ : Type} (arg : MacroArg) (T : Ty α)
    (F : Fields σ) (c : Record) (cs : List Record) :
    EveryVisitedFields P (.cons arg T F) (c :: cs) ↔
      (arg.shadowed deserializeLocals = false → EveryVisited P T c) ∧
        EveryVisitedFields P F cs := by
  simp only [EveryVisitedFields, List.cons.injEq, and_imp, forall_eq', forall_apply_eq_imp_iff]

/-- The same at a node whose children are known. -/
theorem forall_records_iff (r : Record) (rs : List Record) (hrs : r.data = .records rs)
    (Q : List Record → Prop) : (∀ rs', r.data = .records rs' → Q rs') ↔ Q rs := by
  simp only [hrs, Data.records.injEq, forall_eq']

mutual
/-- What holds of no node holds of no visited node. -/
theorem everyVisited_of_not_somewhere (P : Record → Prop) : ∀ {α : Type} (T : Ty α) (r : Record),
    ¬ r.Somewhere P → EveryVisited (fun c => ¬ P c) T r
  | _, .scalar _, r, h => fun hr => h (.here r hr)
  | _, .char, r, h => fun hr => h (.here r hr)
  | _, .vector T, r, h => by
      refine ⟨fun hr => h (.here r hr), ?_⟩
      intro rs hrs c hc
      exact everyVisited_of_not_somewhere P T c (Record.not_somewhere_child r h rs hrs c hc)
  | _, @Ty.map _ _ _ K V, r, h => by
      refine ⟨fun hr => h (.here r hr), ?_⟩
      intro rs hrs
      -- What is true of no node below is true of no key and no value.
      have hbelow := (alternate_self_iff _ rs).mpr (Record.not_somewhere_child r h rs hrs)
      refine hbelow.imp _ _ _ _ rs ?_ ?_
      · intro c _
        exact everyVisited_of_not_somewhere P K c
      · intro c _
        exact everyVisited_of_not_somewhere P V c
  | _, .cls F _, r, h => by
      refine ⟨fun hr => h (.here r hr), ?_⟩
      intro rs hrs
      exact everyVisitedFields_of_not_somewhere P F rs (Record.not_somewhere_child r h rs hrs)
/-- The same for the members of a class. -/
theorem everyVisitedFields_of_not_somewhere (P : Record → Prop) : ∀ {σ : Type} (F : Fields σ)
    (rs : List Record), (∀ c ∈ rs, ¬ c.Somewhere P) → EveryVisitedFields (fun c => ¬ P c) F rs
  | _, .nil, _, _ => trivial
  | _, .cons _ T F, rs, h => by
      rintro c cs rfl
      rw [List.forall_mem_cons] at h
      refine ⟨?_, everyVisitedFields_of_not_somewhere P F cs h.2⟩
      intro _
      exact everyVisited_of_not_somewhere P T c h.1
end

mutual
/-- If no member is hidden, decoding visits all nodes of a shaped tree, so that
    what is missing from the visited ones is missing from the tree. -/
theorem everyVisited_iff_of_unshadowed (P : Record → Prop) : ∀ {α : Type} (T : Ty α), T.Supported →
    T.Unshadowed deserializeLocals → ∀ r : Record, Shaped T r →
      (EveryVisited (fun c => ¬ P c) T r ↔ ¬ r.Somewhere P)
  | _, .scalar s, _, _, r, h => by
      rcases h with ⟨_, x, hx⟩
      rw [EveryVisited, Record.somewhere_scalar P r s x hx]
  | _, .vector T, hT, hU, r, h => by
      rcases h with ⟨_, rs, hrs, h⟩
      rw [EveryVisited, forall_records_iff r rs hrs, Record.somewhere_iff P r rs hrs, not_or]
      refine and_congr_right ?_
      intro _
      -- Neither the node nor any child, and what is below a child is known of it.
      rw [not_exists]
      refine forall_congr' ?_
      intro c
      rw [not_and]
      refine forall_congr' ?_
      intro hc
      exact everyVisited_iff_of_unshadowed P T hT hU c (h c hc)
  | _, @Ty.map _ _ _ K V, hT, hU, r, h => by
      rcases h with ⟨_, rs, hrs, h⟩
      -- The two conditions are the same for keys and for values.
      have hitems :
          Alternate (EveryVisited (fun c => ¬ P c) K) (EveryVisited (fun c => ¬ P c) V) rs ↔
          ∀ c ∈ rs, ¬ c.Somewhere P := by
        rw [← alternate_self_iff]
        refine h.congr _ _ _ _ _ _ rs ?_ ?_
        · intro c _ hc
          exact everyVisited_iff_of_unshadowed P K hT.1 hU.1 c hc
        · intro c _ hc
          exact everyVisited_iff_of_unshadowed P V hT.2 hU.2 c hc
      rw [EveryVisited, forall_records_iff r rs hrs, Record.somewhere_iff P r rs hrs, not_or,
        hitems]
      simp only [not_exists, not_and]
  | _, .cls F _, hT, hU, r, h => by
      rcases h with ⟨_, rs, hrs, h⟩
      rw [EveryVisited, forall_records_iff r rs hrs, Record.somewhere_iff P r rs hrs, not_or,
        everyVisitedFields_iff_of_unshadowed P F hT hU rs h]
      simp only [not_exists, not_and]
/-- The same for the members of a class. -/
theorem everyVisitedFields_iff_of_unshadowed (P : Record → Prop) : ∀ {σ : Type} (F : Fields σ),
    F.Supported → F.Unshadowed deserializeLocals → ∀ rs : List Record, ShapedFields F rs →
      (EveryVisitedFields (fun c => ¬ P c) F rs ↔ ∀ c ∈ rs, ¬ c.Somewhere P)
  | _, .nil, _, _, rs, h => by
      rw [show rs = [] from h]
      exact ⟨fun _ c hc => absurd hc List.not_mem_nil, fun _ => trivial⟩
  | _, .cons _ T F, hF, hU, rs, h => by
      rcases h with ⟨c, cs, hrs, hc, hcs⟩
      rw [hrs, everyVisitedFields_cons_iff, List.forall_mem_cons, forall_prop_of_true hU.1,
        everyVisited_iff_of_unshadowed P T hF.1 hU.2.1 c hc,
        everyVisitedFields_iff_of_unshadowed P F hF.2 hU.2.2 cs hcs]
end

mutual
/-- On a shaped tree every read finds what it reads, and so decoding reaches
    every map that is not below a hidden member. -/
theorem readable_iff_of_shaped : ∀ {α : Type} (T : Ty α), T.Supported → ∀ r : Record,
    Shaped T r → (Readable true T r ↔ EveryVisited (fun c => ¬ c.TruncatedMap) T r)
  | _, .scalar s, _, r, h => by
      rcases h with ⟨htype, x, hx⟩
      rw [Readable, EveryVisited]
      refine iff_of_true ⟨x, hx⟩ ?_
      rintro ⟨_, rs, hrs, _⟩
      rw [hx] at hrs
      simp only [reduceCtorEq] at hrs
  | _, .vector T, hT, r, h => by
      rcases h with ⟨htype, rs, hrs, h⟩
      rw [Readable, EveryVisited, forall_records_iff r rs hrs, truncatedMap_iff r rs hrs, htype,
        hrs]
      simp only [Data.records.injEq, exists_eq_left', reduceCtorEq, false_and, not_false_eq_true,
        true_and]
      -- A list is never a truncated map, so only its items matter.
      refine forall₂_congr ?_
      intro c hc
      exact readable_iff_of_shaped T hT c (h c hc)
  | _, @Ty.map _ _ _ K V, hT, r, h => by
      rcases h with ⟨htype, rs, hrs, h⟩
      have hitems : Alternate (Readable true K) (Readable true V) rs ↔
          Alternate (EveryVisited (fun c => ¬ c.TruncatedMap) K)
            (EveryVisited (fun c => ¬ c.TruncatedMap) V) rs := by
        refine h.congr _ _ _ _ _ _ rs ?_ ?_
        · intro c _ hc
          exact readable_iff_of_shaped K hT.1 c hc
        · intro c _ hc
          exact readable_iff_of_shaped V hT.2 c hc
      -- The node is not truncated itself, and neither is anything visited below.
      rw [Readable, EveryVisited, forall_records_iff r rs hrs, truncatedMap_iff r rs hrs, htype,
        hrs]
      simp only [Data.records.injEq, exists_eq_left', true_and, forall_const, not_not, hitems,
        and_comm]
  | _, .cls F _, hT, r, h => by
      rcases h with ⟨htype, rs, hrs, h⟩
      rw [Readable, EveryVisited, forall_records_iff r rs hrs, truncatedMap_iff r rs hrs, htype,
        hrs]
      simp only [Data.records.injEq, exists_eq_left', reduceCtorEq, false_and, not_false_eq_true,
        true_and]
      exact readableFields_iff_of_shaped F hT rs h
/-- The same for the members of a class. -/
theorem readableFields_iff_of_shaped : ∀ {σ : Type} (F : Fields σ), F.Supported →
    ∀ rs : List Record, ShapedFields F rs →
      (ReadableFields true F rs ↔ EveryVisitedFields (fun c => ¬ c.TruncatedMap) F rs)
  | _, .nil, _, _, _ => iff_of_true trivial trivial
  | _, .cons _ T F, hF, rs, h => by
      rcases h with ⟨c, cs, hrs, hc, hcs⟩
      rw [hrs, readableFields_cons_iff, everyVisitedFields_cons_iff,
        readable_iff_of_shaped T hF.1 c hc, readableFields_iff_of_shaped F hF.2 cs hcs]
end

/-- Decoding throws the exception exactly if some map node in the tree has an
    odd number of children, and never does worse. -/
def TruncationDetected (u : Uninit) {α : Type} (T : Ty α) (target : α) (r : Record) : Prop :=
  (Throws (deserializeField u T target r) ↔ r.Somewhere Record.TruncatedMap) ∧
    Safe (deserializeField u T target r)

/-- On a shaped tree decoding returns or throws, and it throws exactly if a map
    node that it visits has an odd number of children. -/
theorem throws_iff_visited (u : Uninit) {α : Type} (T : Ty α) (hT : T.Supported) (target : α)
    (r : Record) (h : Shaped T r) :
    (Throws (deserializeField u T target r) ↔
      ¬ EveryVisited (fun c => ¬ c.TruncatedMap) T r) ∧
      Safe (deserializeField u T target r) := by
  have hsafe := safe_of_readable u T hT target r (readable_of_shaped T r h)
  have hreturns := (returns_iff u T hT target r).trans (readable_iff_of_shaped T hT r h)
  refine ⟨?_, hsafe⟩
  -- A call that is safe throws exactly when it does not return.
  rw [← hreturns]
  constructor
  · rintro ⟨message, w, hw⟩ hreturn
    rw [hw] at hreturn
    exact not_returns_error _ hreturn
  · intro hthrows
    exact hsafe.resolve_left hthrows

/-- On a shaped tree decoding throws exactly if some map node has an odd number
    of children, unless every such node is in the record of a hidden member.
    Without hidden members it always does; with them it still never does worse
    than throw. -/
theorem truncationDetected_iff (u : Uninit) {α : Type} (T : Ty α) (hT : T.Supported) (target : α)
    (r : Record) (h : Shaped T r) :
    (TruncationDetected u T target r ↔
      (r.Somewhere Record.TruncatedMap → ¬ EveryVisited (fun c => ¬ c.TruncatedMap) T r)) ∧
    (T.Unshadowed deserializeLocals → TruncationDetected u T target r) ∧
    Safe (deserializeField u T target r) := by
  rcases throws_iff_visited u T hT target r h with ⟨hthrows, hsafe⟩
  have hiff : TruncationDetected u T target r ↔
      (r.Somewhere Record.TruncatedMap → ¬ EveryVisited (fun c => ¬ c.TruncatedMap) T r) := by
    rw [TruncationDetected, hthrows, and_iff_left hsafe]
    constructor
    · exact Iff.mpr
    · intro hseen
      refine ⟨?_, hseen⟩
      -- A node that is visited is in the tree.
      intro hvisited
      by_contra hnone
      exact hvisited (everyVisited_of_not_somewhere _ T r hnone)
  refine ⟨hiff, ?_, hsafe⟩
  intro hU
  rw [hiff, everyVisited_iff_of_unshadowed _ T hT hU r h, not_not]
  exact id

/-- A map that ends after a key, as an item of a list. -/
theorem truncationDetected_iff_nested :
    TruncationDetected .zeroed (.vector mapFieldTy) []
      ⟨.list, [], .records [⟨.map, str "item", .records
        [⟨.signedInt32, str "key", .scalar .int32 5⟩]⟩]⟩ := by
  refine (truncationDetected_iff .zeroed (.vector mapFieldTy) ⟨trivial, trivial⟩ [] _
    ⟨rfl, _, rfl, ?_⟩).2.1 ⟨trivial, trivial⟩
  rw [List.forall_mem_singleton]
  exact ⟨rfl, _, rfl, rfl, 5, rfl⟩

/-- A map that ends after a key, in the record of `serializerRecords`: the
    member is not decoded, and nothing is thrown. -/
theorem not_truncationDetected_serializerRecords :
    ¬ ∀ (u : Uninit) {α : Type} (T : Ty α), T.Supported → ∀ (target : α) (r : Record),
      Shaped T r → TruncationDetected u T target r := by
  intro h
  have hdetected := h .zeroed serializerRecordsClass ⟨⟨trivial, trivial⟩, trivial⟩
    (SortedMap.empty, ()) ⟨.serializableClass, [], .records [⟨.map, str "serializerRecords",
      .records [⟨.signedInt32, str "key", .scalar .int32 5⟩]⟩]⟩
    ⟨rfl, _, rfl, _, [], rfl, ⟨rfl, _, rfl, rfl, 5, rfl⟩, rfl⟩
  -- The odd map is below the root, so the call would have to throw.
  have hthrows := hdetected.1.mpr (.deeper _ _ rfl _ List.mem_cons_self
    (.here _ ⟨rfl, _, rfl, Nat.not_even_one⟩))
  exact not_throws_ok (SortedMap.empty, ()) hthrows

end Nanoservices
