import Nanoservices.Serialization.Encoder
import Nanoservices.Serialization.Safety

/-!
# What an Exception Leaves Behind

The target of a decoding that the exception ends. The decoder writes as it goes
and takes nothing back. Items, keys and values are decoded into objects of
their own, so the one in which the exception is thrown leaves nothing; but the
items and pairs before it are in the target already, and the members of a class
are decoded in place, those that no variable of the decoder hides.

`Leftover` says what is there then, by the type: the work that precedes the
fault, and nothing of what follows it. It is an equivalence
(`leaves_iff`), so there is no more to be known about the target. Only where
nothing precedes the fault is the target as it was.

## Main definitions

* `Leaves`: The call throws and leaves this target.
* `ListLeft`, `PairThrows`, `PairReturns`, `MapLeft`: Where the loops are
  interrupted.
* `Leftover`, `LeftoverFields`: The work before the fault has been done.
* `AtFront`, `AtFrontFields`: No work precedes the fault.

## Theorems

* `deserializeListLoop_leaves_iff`, `deserializeMapLoop_leaves_iff`: What the
  loops leave.
* `leaves_iff`: What the decoder leaves.
* `leftover_of_atFront`: Nothing is left where nothing precedes.
* `deserializeField_leftover`: Both, for the decoder.
-/

namespace Nanoservices

open Interleave

/-- The call throws `ns_exception`, and the target is `w` then. -/
def Leaves {α : Type} (d : Decoded α) (w : α) : Prop :=
  ∃ message, d = .error (.nsException message, w)

/-- A call that returns leaves nothing behind an exception. -/
theorem not_leaves_ok {α : Type} (v w : α) : ¬ Leaves (.ok v : Decoded α) w := by
  rintro ⟨message, h⟩
  simp only [reduceCtorEq] at h

/-- What a call that failed leaves is the target as it was at the fault, if the
    fault is an exception. -/
theorem leaves_error_iff {α : Type} (e : Fault × α) (w : α) :
    Leaves (.error e : Decoded α) w ↔ (∃ message, e.1 = .nsException message) ∧ w = e.2 := by
  constructor
  · rintro ⟨message, h⟩
    rw [Except.error.inj h]
    exact ⟨⟨message, rfl⟩, rfl⟩
  · rintro ⟨⟨message, h⟩, rfl⟩
    exact ⟨message, congrArg Except.error (Prod.ext h rfl)⟩

/-- A call that failed has thrown exactly if its fault is an exception. -/
theorem throws_error_iff {α : Type} (e : Fault × α) :
    Throws (.error e : Decoded α) ↔ ∃ message, e.1 = .nsException message := by
  constructor
  · rintro ⟨message, w, h⟩
    rw [Except.error.inj h]
    exact ⟨message, rfl⟩
  · rintro ⟨message, h⟩
    exact ⟨message, e.2, congrArg Except.error (Prod.ext h rfl)⟩

/-! ### The loops -/

/-- An item throws, and the items before it have been appended. -/
def ListLeft {α : Type} (item : Record → Decoded α) (rs : List Record) (w w' : List α) : Prop :=
  ∃ before c after vs, rs = before ++ c :: after ∧
    List.Forall₂ (fun r v => item r = .ok v) before vs ∧ Throws (item c) ∧ w' = w ++ vs

/-- The first pair is not completed: its key throws, or there is no value, or
    the value throws. -/
def PairThrows {κ ν : Type} (keyItem : Record → Decoded κ) (valueItem : Record → Decoded ν) :
    List Record → Prop
  | [] => False
  | [kr] => Throws (keyItem kr) ∨ Returns (keyItem kr)
  | kr :: vr :: _ => Throws (keyItem kr) ∨ (Returns (keyItem kr) ∧ Throws (valueItem vr))

/-- The first pair is completed. -/
def PairReturns {κ ν : Type} (keyItem : Record → Decoded κ) (valueItem : Record → Decoded ν) :
    List Record → Prop
  | kr :: vr :: _ => Returns (keyItem kr) ∧ Returns (valueItem vr)
  | _ => False

/-- A pair is not completed, and the pairs before it have been inserted. -/
def MapLeft {κ ν : Type} [LinearOrder κ] (keyItem : Record → Decoded κ)
    (valueItem : Record → Decoded ν) (rs : List Record) (w w' : SortedMap κ ν) : Prop :=
  ∃ before rest kvs, rs = interleave before ++ rest ∧
    List.Forall₂ (fun p kv => keyItem p.1 = .ok kv.1 ∧ valueItem p.2 = .ok kv.2) before kvs ∧
    PairThrows keyItem valueItem rest ∧ w' = w.insertAll kvs

/-- If the first item does not return, nothing is appended. -/
theorem listLeft_cons_error {α : Type} (item : Record → Decoded α) (r : Record) (rs : List Record)
    (w w' : List α) (e : Fault × α) (hr : item r = .error e) :
    ListLeft item (r :: rs) w w' ↔ Throws (item r) ∧ w' = w := by
  constructor
  · rintro ⟨before, c, after, vs, hrs, hbefore, hc, rfl⟩
    cases hbefore with
    | nil =>
        rw [List.nil_append, List.cons.injEq] at hrs
        exact ⟨hrs.1 ▸ hc, List.append_nil w⟩
    | cons hv _ =>
        -- An item before the fault returns.
        rw [List.cons_append, List.cons.injEq] at hrs
        rw [← hrs.1, hr] at hv
        simp only [reduceCtorEq] at hv
  · rintro ⟨hthrows, rfl⟩
    exact ⟨[], r, rs, [], rfl, .nil, hthrows, (List.append_nil w').symm⟩

/-- If the first item returns, it is appended, and the rest goes on from
    there. -/
theorem listLeft_cons_ok {α : Type} (item : Record → Decoded α) (r : Record) (rs : List Record)
    (w w' : List α) (x : α) (hr : item r = .ok x) :
    ListLeft item (r :: rs) w w' ↔ ListLeft item rs (w ++ [x]) w' := by
  constructor
  · -- The item that throws is not the first, so there is one before it.
    rintro ⟨before, c, after, vs, hrs, hbefore, hc, rfl⟩
    cases hbefore with
    | nil =>
        rw [List.nil_append, List.cons.injEq] at hrs
        rw [← hrs.1, hr] at hc
        exact absurd hc (not_throws_ok x)
    | cons hv hbefore =>
        rw [List.cons_append, List.cons.injEq] at hrs
        rw [← hrs.1, hr, Except.ok.injEq] at hv
        rw [← hv]
        exact ⟨_, c, after, _, hrs.2, hbefore, hc, List.append_cons w x _⟩
  · rintro ⟨before, c, after, vs, rfl, hbefore, hc, rfl⟩
    exact ⟨r :: before, c, after, x :: vs, rfl, .cons hr hbefore, hc,
      (List.append_cons w x vs).symm⟩

/-- The list loop is left at an item that throws. -/
theorem deserializeListLoop_leaves_iff {α : Type} (t : α) (item : α → Record → Decoded α)
    (rs : List Record) (target w' : List α) :
    Leaves (deserializeListLoop t item target rs) w' ↔ ListLeft (item t) rs target w' := by
  induction rs generalizing target with
  | nil =>
      -- There is no item in an empty vector that could throw.
      refine iff_of_false (not_leaves_ok target w') ?_
      rintro ⟨before, c, after, vs, h, _⟩
      exact absurd h.symm (List.append_ne_nil_of_right_ne_nil before (List.cons_ne_nil c after))
  | cons r rs ih =>
      unfold deserializeListLoop
      -- The loop stops at this item, or goes on with one more in the target.
      cases hr : item t r with
      | error e =>
          rw [listLeft_cons_error _ r rs target w' e hr, hr, throws_error_iff]
          exact leaves_error_iff (e.1, target) w'
      | ok x =>
          rw [listLeft_cons_ok _ r rs target w' x hr]
          exact ih (target ++ [x])

/-- If the first pair is not completed, nothing is inserted. -/
theorem mapLeft_of_not_pairReturns {κ ν : Type} [LinearOrder κ] (keyItem : Record → Decoded κ)
    (valueItem : Record → Decoded ν) (rs : List Record) (w w' : SortedMap κ ν)
    (h : ¬ PairReturns keyItem valueItem rs) :
    MapLeft keyItem valueItem rs w w' ↔ PairThrows keyItem valueItem rs ∧ w' = w := by
  constructor
  · rintro ⟨before, rest, kvs, rfl, hbefore, hrest, rfl⟩
    cases hbefore with
    | nil => exact ⟨hrest, rfl⟩
    | cons hkv _ => exact absurd ⟨⟨_, hkv.1⟩, ⟨_, hkv.2⟩⟩ h
  · rintro ⟨hrs, rfl⟩
    exact ⟨[], rs, [], rfl, .nil, hrs, rfl⟩

/-- If the first pair returns, it is inserted, and the rest goes on from
    there. -/
theorem mapLeft_cons_ok {κ ν : Type} [LinearOrder κ] (keyItem : Record → Decoded κ)
    (valueItem : Record → Decoded ν) (kr vr : Record) (rs : List Record) (w w' : SortedMap κ ν)
    (k : κ) (v : ν) (hk : keyItem kr = .ok k) (hv : valueItem vr = .ok v) :
    MapLeft keyItem valueItem (kr :: vr :: rs) w w' ↔
      MapLeft keyItem valueItem rs (w.insert k v) w' := by
  constructor
  · rintro ⟨before, rest, kvs, hrs, hbefore, hrest, rfl⟩
    cases hbefore with
    | nil =>
        -- The first pair is not the one that throws.
        rw [interleave, List.nil_append] at hrs
        rw [← hrs, PairThrows, hk, hv] at hrest
        rcases hrest with hthrows | ⟨_, hthrows⟩
        · exact absurd hthrows (not_throws_ok k)
        · exact absurd hthrows (not_throws_ok v)
    | cons hkv hbefore =>
        rw [interleave, List.cons_append, List.cons_append, List.cons.injEq, List.cons.injEq] at hrs
        rw [← hrs.1, ← hrs.2.1, hk, hv, Except.ok.injEq, Except.ok.injEq] at hkv
        refine ⟨_, rest, _, hrs.2.2, hbefore, hrest, ?_⟩
        rw [SortedMap.insertAll_cons, hkv.1, hkv.2]
  · rintro ⟨before, rest, kvs, rfl, hbefore, hrest, rfl⟩
    exact ⟨(kr, vr) :: before, rest, (k, v) :: kvs, rfl, .cons ⟨hk, hv⟩ hbefore, hrest, rfl⟩

/-- The map loop is left at a pair that is not completed. -/
theorem deserializeMapLoop_leaves_iff {κ ν : Type} [LinearOrder κ] (n : Str) (k₀ : κ) (v₀ : ν)
    (keyItem : κ → Record → Decoded κ) (valueItem : ν → Record → Decoded ν) (rs : List Record)
    (target w' : SortedMap κ ν) :
    Leaves (deserializeMapLoop n k₀ v₀ keyItem valueItem target rs) w' ↔
      MapLeft (keyItem k₀) (valueItem v₀) rs target w' := by
  induction rs using pairInduction generalizing target with
  | nil =>
      rw [mapLeft_of_not_pairReturns _ _ [] target w' not_false]
      refine iff_of_false (not_leaves_ok target w') ?_
      intro h
      exact h.1
  | single kr =>
      rw [mapLeft_of_not_pairReturns _ _ [kr] target w' not_false, PairThrows, deserializeMapLoop]
      cases hk : keyItem k₀ kr with
      | error e => simp only [leaves_error_iff, throws_error_iff, not_returns_error, or_false]
      | ok k =>
          -- There is no value for the key.
          simp only [leaves_error_iff, Fault.nsException.injEq, exists_eq', returns_ok, or_true]
  | pair kr vr rs ih =>
      unfold deserializeMapLoop
      cases hk : keyItem k₀ kr with
      | error e =>
          have hnot : ¬ PairReturns (keyItem k₀) (valueItem v₀) (kr :: vr :: rs) := by
            rw [PairReturns, hk]
            intro h
            exact not_returns_error e h.1
          rw [mapLeft_of_not_pairReturns _ _ _ target w' hnot, PairThrows, hk]
          simp only [leaves_error_iff, throws_error_iff, not_returns_error, false_and, or_false]
      | ok k =>
          cases hv : valueItem v₀ vr with
          | error e =>
              have hnot : ¬ PairReturns (keyItem k₀) (valueItem v₀) (kr :: vr :: rs) := by
                rw [PairReturns, hv]
                intro h
                exact not_returns_error e h.2
              rw [mapLeft_of_not_pairReturns _ _ _ target w' hnot, PairThrows, hk, hv]
              simp only [leaves_error_iff, throws_error_iff, not_throws_ok, returns_ok, true_and,
                false_or]
          | ok v =>
              rw [mapLeft_cons_ok _ _ kr vr rs target w' k v hk hv]
              exact ih (target.insert k v)

/-! ### The decoder -/

mutual
/-- Decoding into `w` is left with `w'`: what precedes the fault has been done,
    and nothing else has. -/
def Leftover (u : Uninit) : {α : Type} → Ty α → Record → α → α → Prop
  | _, .scalar _, _, _, _ => False
  | _, .char, _, _, _ => False
  | _, .vector T, r, w, w' => ∃ rs, r.data = .records rs ∧
      ListLeft (deserializeField u T (T.defaultInit u)) rs w w'
  | _, @Ty.map _ _ _ K V, r, w, w' => ∃ rs, r.data = .records rs ∧
      MapLeft (deserializeField u K (K.defaultInit u)) (deserializeField u V (V.defaultInit u))
        rs w w'
  | _, .cls F _, r, w, w' => ∃ rs, r.data = .records rs ∧ LeftoverFields u F rs w w'
/-- The same for the members of a class: those before the one that throws have
    been decoded. -/
def LeftoverFields (u : Uninit) : {σ : Type} → Fields σ → List Record → σ → σ → Prop
  | _, .nil, _, _, _ => False
  -- A member that throws is left as it is, and the later ones are untouched. A
  -- hidden member cannot throw, and it is untouched as well.
  | _, .cons arg T F, rs, w, w' => ∃ c cs, rs = c :: cs ∧
      if arg.shadowed deserializeLocals then w'.1 = w.1 ∧ LeftoverFields u F cs w.2 w'.2
      else (Leftover u T c w.1 w'.1 ∧ w'.2 = w.2) ∨
        (deserializeField u T w.1 c = .ok w'.1 ∧ LeftoverFields u F cs w.2 w'.2)
end

/-- With a record for the first member, the exception comes from that member or
    from a later one. -/
theorem leftoverFields_cons_iff (u : Uninit) {α σ : Type} (arg : MacroArg) (T : Ty α)
    (F : Fields σ) (c : Record) (cs : List Record) (w w' : α × σ) :
    LeftoverFields u (.cons arg T F) (c :: cs) w w' ↔
      if arg.shadowed deserializeLocals then w'.1 = w.1 ∧ LeftoverFields u F cs w.2 w'.2
      else (Leftover u T c w.1 w'.1 ∧ w'.2 = w.2) ∨
        (deserializeField u T w.1 c = .ok w'.1 ∧ LeftoverFields u F cs w.2 w'.2) := by
  simp only [LeftoverFields, List.cons.injEq, and_assoc, exists_and_left, exists_eq_left']

/-- Undefined behaviour is not an exception. -/
theorem not_leaves_undefinedAt {α : Type} (e : Undefined) (w w' : α) :
    ¬ Leaves (undefinedAt e w) w' := by
  rw [undefinedAt, leaves_error_iff]
  rintro ⟨⟨message, h⟩, _⟩
  simp only [reduceCtorEq] at h

mutual
/-- Decoding throws and leaves `w'` exactly if `w'` is what precedes the
    fault. -/
theorem leaves_iff (u : Uninit) : ∀ {α : Type} (T : Ty α) (r : Record) (w w' : α),
    Leaves (deserializeField u T w r) w' ↔ Leftover u T r w w'
  | _, .scalar s, r, w, w' => by
      rw [deserializeField, Leftover]
      cases r.data.readScalar s with
      -- A scalar is read or not, but nothing is thrown.
      | error e => exact iff_of_false (not_leaves_undefinedAt e w w') not_false
      | ok x => exact iff_of_false (not_leaves_ok x w') not_false
  | _, .char, r, w, w' => by
      rw [deserializeField, Leftover]
      exact iff_of_false (not_leaves_ok w w') not_false
  | _, .vector T, r, w, w' => by
      rw [deserializeField, deserializeListField, Leftover]
      refine readRecords_iff (Leaves · w') r _ w _ (fun e => not_leaves_undefinedAt e w w') ?_
      intro rs
      exact deserializeListLoop_leaves_iff _ _ rs w w'
  | _, @Ty.map _ _ _ K V, r, w, w' => by
      rw [deserializeField, deserializeMapField, Leftover]
      refine readRecords_iff (Leaves · w') r _ w _ (fun e => not_leaves_undefinedAt e w w') ?_
      intro rs
      exact deserializeMapLoop_leaves_iff _ _ _ _ _ rs w w'
  | _, .cls F _, r, w, w' => by
      rw [deserializeField, Leftover]
      refine readRecords_iff (Leaves · w') r _ w _ (fun e => not_leaves_undefinedAt e w w') ?_
      intro rs
      exact leavesClauses_iff u F rs w w'
/-- The same for the members of a class. -/
theorem leavesClauses_iff (u : Uninit) : ∀ {σ : Type} (F : Fields σ) (rs : List Record) (w w' : σ),
    Leaves (deserializeClauses u F w rs) w' ↔ LeftoverFields u F rs w w'
  | _, .nil, _, w, w' => by
      rw [deserializeClauses, LeftoverFields]
      exact iff_of_false (not_leaves_ok w w') not_false
  | _, .cons _ T F, [], w, w' => by
      rw [deserializeClauses, undefinedAt, leaves_error_iff, LeftoverFields]
      simp only [reduceCtorEq, exists_false, false_and]
  | _, .cons arg T F, c :: cs, w, w' => by
      rw [leftoverFields_cons_iff, ← leaves_iff u T c w.1 w'.1, ← leavesClauses_iff u F cs w.2 w'.2,
        deserializeClauses]
      -- A hidden member is passed over, so it is up to the later ones alone.
      cases hd : arg.shadowed deserializeLocals with
      | true =>
          rw [deserializeFieldclause_shadowed arg hd, if_pos rfl]
          cases deserializeClauses u F w.2 cs with
          | error e =>
              simp only [leaves_error_iff, Prod.ext_iff]
              tauto
          | ok xs => simp only [not_leaves_ok, and_false]
      | false =>
          rw [deserializeFieldclause_eq arg hd, if_neg Bool.false_ne_true]
          -- A member that fails keeps the later ones from being decoded.
          cases deserializeField u T w.1 c with
          | error e =>
              simp only [leaves_error_iff, Prod.ext_iff, reduceCtorEq, false_and, or_false,
                and_assoc]
          | ok x =>
              cases deserializeClauses u F w.2 cs with
              | error e =>
                  simp only [leaves_error_iff, not_leaves_ok, Prod.ext_iff, false_and, false_or,
                    Except.ok.injEq]
                  tauto
              | ok xs => simp only [not_leaves_ok, false_and, and_false, or_false]
end

mutual
/-- Nothing precedes the fault: it is in the first item of a vector, in the
    first pair of a map, or at the front of the first member of a class that is
    not hidden. -/
def AtFront (u : Uninit) : {α : Type} → Ty α → Record → Prop
  | _, .scalar _, _ => False
  | _, .char, _ => False
  | _, .vector T, r => ∃ c after, r.data = .records (c :: after) ∧
      Throws (deserializeField u T (T.defaultInit u) c)
  | _, @Ty.map _ _ _ K V, r => ∃ rs, r.data = .records rs ∧
      PairThrows (deserializeField u K (K.defaultInit u))
        (deserializeField u V (V.defaultInit u)) rs
  | _, .cls F _, r => ∃ rs, r.data = .records rs ∧ AtFrontFields u F rs
/-- The same for the members of a class. The records of hidden members do not
    count. -/
def AtFrontFields (u : Uninit) : {σ : Type} → Fields σ → List Record → Prop
  | _, .nil, _ => False
  | _, .cons arg T F, rs => ∃ c cs, rs = c :: cs ∧
      if arg.shadowed deserializeLocals then AtFrontFields u F cs else AtFront u T c
end

mutual
/-- Where nothing precedes the fault, what precedes it is nothing. -/
theorem leftover_of_atFront (u : Uninit) : ∀ {α : Type} (T : Ty α) (r : Record) (w : α),
    AtFront u T r → Leftover u T r w w
  | _, .vector T, r, w, h => by
      rcases h with ⟨c, after, hr, hc⟩
      exact ⟨_, hr, [], c, after, [], rfl, .nil, hc, (List.append_nil w).symm⟩
  | _, @Ty.map _ _ _ K V, r, w, h => by
      rcases h with ⟨rs, hr, hrs⟩
      exact ⟨rs, hr, [], rs, [], rfl, .nil, hrs, rfl⟩
  | _, .cls F _, r, w, h => by
      rcases h with ⟨rs, hr, hrs⟩
      exact ⟨rs, hr, leftoverFields_of_atFront u F rs w hrs⟩
/-- The same for the members of a class: what is left of them is what was there. -/
theorem leftoverFields_of_atFront (u : Uninit) : ∀ {σ : Type} (F : Fields σ) (rs : List Record)
    (w : σ), AtFrontFields u F rs → LeftoverFields u F rs w w
  | _, .cons arg T F, rs, w, h => by
      rcases h with ⟨c, cs, hrs, hc⟩
      refine ⟨c, cs, hrs, ?_⟩
      cases hd : arg.shadowed deserializeLocals with
      | true =>
          rw [hd, if_pos rfl] at hc
          exact ⟨rfl, leftoverFields_of_atFront u F cs w.2 hc⟩
      | false =>
          rw [hd, if_neg Bool.false_ne_true] at hc
          exact Or.inl ⟨leftover_of_atFront u T c w.1 hc, rfl⟩
end

/-- When decoding throws, the target holds what precedes the fault; where
    nothing precedes it, decoding throws and the target is as it was. -/
theorem deserializeField_leftover (u : Uninit) {α : Type} (T : Ty α) (r : Record) (w : α) :
    (∀ w', Leaves (deserializeField u T w r) w' ↔ Leftover u T r w w') ∧
      (AtFront u T r → Leaves (deserializeField u T w r) w) := by
  refine ⟨leaves_iff u T r w, ?_⟩
  intro h
  exact (leaves_iff u T r w w).mpr (leftover_of_atFront u T r w h)

/-- A whole map and one that ends after a key. -/
def truncatedMaps : Record :=
  ⟨.list, [], .records [⟨.map, listItemRecordName, .records []⟩,
    ⟨.map, listItemRecordName, .records
      [⟨.signedInt32, mapItemKeyRecordName, .scalar .int32 5⟩]⟩]⟩

/-- The first map is in the vector when the second one throws; a map that ends
    after its first key is not touched. -/
theorem deserializeField_leftover_truncatedMaps :
    Leftover .zeroed (.vector mapFieldTy) truncatedMaps [] [SortedMap.empty] ∧
      Leaves (deserializeField .zeroed mapFieldTy (SortedMap.empty.insert 7 (str "old"))
        ⟨.map, [], .records [⟨.signedInt32, mapItemKeyRecordName, .scalar .int32 5⟩]⟩)
          (SortedMap.empty.insert 7 (str "old")) := by
  constructor
  · have hleftover := (deserializeField_leftover .zeroed (.vector mapFieldTy) truncatedMaps []).1
    exact (hleftover _).mp ⟨_, rfl⟩
  · refine (deserializeField_leftover .zeroed mapFieldTy _ _).2 ⟨_, rfl, ?_⟩
    exact Or.inr ⟨5, rfl⟩

/-- Decoding is not atomic: with two maps in a vector, of which the second is
    truncated, the first stays in the target. -/
theorem not_atomic_truncatedMaps :
    ¬ ∀ (u : Uninit) {α : Type} (T : Ty α), T.Supported → ∀ (w : α) (r : Record), Shaped T r →
      ∀ w', Leaves (deserializeField u T w r) w' → w' = w := by
  intro h
  have hshaped : Shaped (.vector mapFieldTy) truncatedMaps := by
    refine ⟨rfl, _, rfl, ?_⟩
    rw [List.forall_mem_cons, List.forall_mem_singleton]
    exact ⟨⟨rfl, _, rfl, trivial⟩, ⟨rfl, _, rfl, rfl, 5, rfl⟩⟩
  have hleft := h .zeroed (.vector mapFieldTy) ⟨trivial, trivial⟩ [] truncatedMaps hshaped
    [SortedMap.empty] ⟨_, rfl⟩
  exact absurd hleft (List.cons_ne_nil _ _)

end Nanoservices
