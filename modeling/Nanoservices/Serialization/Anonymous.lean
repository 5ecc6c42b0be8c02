import Nanoservices.Library.Interleave
import Nanoservices.Serialization.Decoder

/-!
# Tags and Names

The decoder dispatches on the type it is instantiated at. The tags and the
field names of a record tree are written by the encoder and read by nobody, but
for one place: the text of the exception that a truncated map throws.

`Alike` trees are equal but for tags and names, at every node. They are decoded
alike: to the same value, or to the same fault with the same contents of the
target, and only the text of an exception can tell them apart.

## Main definitions

* `Alike`: Trees equal but for tags and names.
* `forgetMessage`: An outcome without the text of the exception.

## Theorems

* `deserializeListLoop_alike`, `deserializeMapLoop_alike`: The loops.
* `deserializeField_alike`: Alike trees are decoded alike.
* `deserialize_alike`: The two outcomes side by side.
-/

namespace Nanoservices

open Interleave

/-- Trees that are equal but for the tags and the field names. -/
inductive Alike : Record → Record → Prop
  | leaf (t t' : RecordType) (n n' : Str) (d : Data Record) (hd : ∀ rs, d ≠ .records rs) :
      Alike ⟨t, n, d⟩ ⟨t', n', d⟩
  | node (t t' : RecordType) (n n' : Str) (rs rs' : List Record) (h : List.Forall₂ Alike rs rs') :
      Alike ⟨t, n, .records rs⟩ ⟨t', n', .records rs'⟩

/-- The fault without the text of the exception. -/
def Fault.forgetMessage : Fault → Fault
  | .nsException _ => .nsException []
  | f => f

/-- The outcome without the text of the exception. -/
def forgetMessage {α : Type} : Decoded α → Decoded α
  | .ok v => .ok v
  | .error (f, w) => .error (f.forgetMessage, w)

/-- Outcomes that are equal but for the text of the exception go on alike. -/
theorem forgetMessage_cases {α : Type} {d d' : Decoded α} (h : forgetMessage d = forgetMessage d') :
    (∃ v, d = .ok v ∧ d' = .ok v) ∨ ∃ f f' w, d = .error (f, w) ∧ d' = .error (f', w) ∧
      f.forgetMessage = f'.forgetMessage := by
  cases d with
  | ok v =>
      cases d' with
      | ok v' => exact .inl ⟨v, rfl, congrArg Except.ok (Except.ok.inj h).symm⟩
      | error e => simp only [forgetMessage, reduceCtorEq] at h
  | error e =>
      cases d' with
      | ok v' => simp only [forgetMessage, reduceCtorEq] at h
      | error e' =>
          -- The faults agree but for the text, and the targets agree.
          have he := Prod.mk.inj (Except.error.inj h)
          exact .inr ⟨e.1, e'.1, e.2, rfl, congrArg Except.error (Prod.ext rfl he.2.symm), he.1⟩

/-- The data of alike trees is read alike. -/
theorem Alike.cases {r r' : Record} (h : Alike r r') :
    (r.data = r'.data ∧ ∀ rs, r.data ≠ .records rs) ∨
      ∃ rs rs', r.data = .records rs ∧ r'.data = .records rs' ∧ List.Forall₂ Alike rs rs' := by
  cases h with
  | leaf _ _ _ _ d hd => exact .inl ⟨rfl, hd⟩
  | node _ _ _ _ rs rs' h => exact .inr ⟨rs, rs', rfl, rfl, h⟩

/-- The list loop does the same over alike records, if the items do. -/
theorem deserializeListLoop_alike {α : Type} (t : α) (item : α → Record → Decoded α)
    (hitem : ∀ r r', Alike r r' → forgetMessage (item t r) = forgetMessage (item t r'))
    (rs rs' : List Record) (h : List.Forall₂ Alike rs rs') (target : List α) :
    forgetMessage (deserializeListLoop t item target rs) =
      forgetMessage (deserializeListLoop t item target rs') := by
  induction h generalizing target with
  | nil => rfl
  | cons hr _ ih =>
      unfold deserializeListLoop
      rcases forgetMessage_cases (hitem _ _ hr) with ⟨v, hv, hv'⟩ | ⟨f, f', w, hf, hf', hff⟩
      · rw [hv, hv']
        exact ih _
      · rw [hf, hf']
        -- Both stop here, with what they have filled in so far.
        exact congrArg (fun g => Except.error (g, target)) hff

/-- The map loop does the same over alike records. The names of the two maps may
    differ: they only reach the text of an exception. -/
theorem deserializeMapLoop_alike {κ ν : Type} [LinearOrder κ] (n n' : Str) (k₀ : κ) (v₀ : ν)
    (keyItem : κ → Record → Decoded κ) (valueItem : ν → Record → Decoded ν)
    (hkey : ∀ r r', Alike r r' → forgetMessage (keyItem k₀ r) = forgetMessage (keyItem k₀ r'))
    (hvalue : ∀ r r', Alike r r' →
      forgetMessage (valueItem v₀ r) = forgetMessage (valueItem v₀ r'))
    (rs rs' : List Record) (h : List.Forall₂ Alike rs rs') (target : SortedMap κ ν) :
    forgetMessage (deserializeMapLoop n k₀ v₀ keyItem valueItem target rs) =
      forgetMessage (deserializeMapLoop n' k₀ v₀ keyItem valueItem target rs') := by
  induction rs using pairInduction generalizing rs' target with
  | nil =>
      cases h with
      | nil => rfl
  | single kr =>
      cases h with
      | cons hk hnil =>
          cases hnil with
          | nil =>
              unfold deserializeMapLoop
              rcases forgetMessage_cases (hkey _ _ hk) with ⟨k, hk, hk'⟩ | ⟨f, f', w, hf, hf', hff⟩
              · rw [hk, hk']
                -- The two texts name different fields.
                rfl
              · rw [hf, hf']
                exact congrArg (fun g => Except.error (g, target)) hff
  | pair kr vr rs ih =>
      cases h with
      | cons hk hrest =>
          cases hrest with
          | cons hv hrest =>
              unfold deserializeMapLoop
              rcases forgetMessage_cases (hkey _ _ hk) with ⟨k, hk, hk'⟩ | ⟨f, f', w, hf, hf', hff⟩
              · rw [hk, hk']
                rcases forgetMessage_cases (hvalue _ _ hv) with
                  ⟨v, hv, hv'⟩ | ⟨f, f', w, hf, hf', hff⟩
                · rw [hv, hv']
                  -- Equal keys and values are inserted on both sides.
                  exact ih _ hrest _
                · rw [hf, hf']
                  exact congrArg (fun g => Except.error (g, target)) hff
              · rw [hf, hf']
                exact congrArg (fun g => Except.error (g, target)) hff

/-- What begins with a record vector goes on alike, if it does from alike
    vectors. -/
theorem readRecords_alike {α : Type} {r r' : Record} (h : Alike r r') (target : α)
    (k k' : List Record → Decoded α)
    (hk : ∀ rs rs', List.Forall₂ Alike rs rs' → forgetMessage (k rs) = forgetMessage (k' rs')) :
    forgetMessage (match r.data.readRecords with
      | .error e => undefinedAt e target
      | .ok rs => k rs) =
    forgetMessage (match r'.data.readRecords with
      | .error e => undefinedAt e target
      | .ok rs => k' rs) := by
  rcases h.cases with ⟨hd, hnot⟩ | ⟨rs, rs', hrs, hrs', hall⟩
  · -- Neither of them is a record vector.
    rw [← hd]
    cases hread : r.data.readRecords with
    | error e => rfl
    | ok rs => exact absurd ((readRecords_eq_ok_iff r.data rs).mp hread) (hnot rs)
  · rw [hrs, hrs', readRecords_records, readRecords_records]
    exact hk rs rs' hall

/-- A member that is not decoded makes no difference. -/
theorem deserializeFieldclause_alike {α : Type} (arg : MacroArg) (target : α) (d d' : Decoded α)
    (h : forgetMessage d = forgetMessage d') :
    forgetMessage (deserializeFieldclause arg target d) =
      forgetMessage (deserializeFieldclause arg target d') := by
  unfold deserializeFieldclause
  split
  · rfl
  · exact h

mutual
/-- Trees that differ only in tags and field names are decoded alike. -/
theorem deserializeField_alike (u : Uninit) : ∀ {α : Type} (T : Ty α) (w : α) (r r' : Record),
    Alike r r' →
      forgetMessage (deserializeField u T w r) = forgetMessage (deserializeField u T w r')
  | _, .scalar s, w, r, r', h => by
      unfold deserializeField
      rcases h.cases with ⟨hd, _⟩ | ⟨rs, rs', hrs, hrs', _⟩
      · rw [hd]
      · rw [hrs, hrs']
        rfl
  | _, .char, _, _, _, _ => rfl
  | _, .vector T, w, r, r', h => by
      unfold deserializeField deserializeListField
      refine readRecords_alike h w _ _ fun rs rs' hall => ?_
      -- The items are decoded alike into fresh objects.
      exact deserializeListLoop_alike _ _ (fun c c' hc => deserializeField_alike u T _ c c' hc)
        rs rs' hall w
  | _, @Ty.map _ _ _ K V, w, r, r', h => by
      unfold deserializeField deserializeMapField
      refine readRecords_alike h w _ _ fun rs rs' hall => ?_
      exact deserializeMapLoop_alike _ _ _ _ _ _
        (fun c c' hc => deserializeField_alike u K _ c c' hc)
        (fun c c' hc => deserializeField_alike u V _ c c' hc) rs rs' hall w
  | _, .cls F _, w, r, r', h => by
      unfold deserializeField
      refine readRecords_alike h w _ _ fun rs rs' hall => ?_
      -- Members find their records by position, not by name.
      exact deserializeClauses_alike u F w rs rs' hall
/-- The same for the members of a class. Which of them are decoded is up to the
    class and not to the records. -/
theorem deserializeClauses_alike (u : Uninit) : ∀ {σ : Type} (F : Fields σ) (w : σ)
    (rs rs' : List Record), List.Forall₂ Alike rs rs' →
      forgetMessage (deserializeClauses u F w rs) = forgetMessage (deserializeClauses u F w rs')
  | _, .nil, _, _, _, _ => rfl
  | _, .cons _ T F, w, _, _, .nil => rfl
  | _, .cons arg T F, w, _, _, .cons hr hrs => by
      have hmember := deserializeFieldclause_alike arg w.1 _ _
        (deserializeField_alike u T w.1 _ _ hr)
      unfold deserializeClauses
      rcases forgetMessage_cases hmember with ⟨x, hx, hx'⟩ | ⟨f, f', x, hf, hf', hff⟩
      · rw [hx, hx']
        rcases forgetMessage_cases (deserializeClauses_alike u F w.2 _ _ hrs) with
          ⟨xs, hxs, hxs'⟩ | ⟨f, f', xs, hf, hf', hff⟩
        · rw [hxs, hxs']
        · rw [hf, hf']
          -- The member before has been written all the same.
          exact congrArg (fun g => Except.error (g, (x, xs))) hff
      · rw [hf, hf']
        exact congrArg (fun g => Except.error (g, (x, w.2))) hff
end

/-- Trees that differ only in tags and field names leave equal values, or equal
    faults with equal contents of the target; only the text of an exception may
    differ. -/
theorem deserialize_alike (u : Uninit) {α : Type} (T : Ty α) (w : α) (r r' : Record)
    (h : Alike r r') :
    (∃ v, deserializeField u T w r = .ok v ∧ deserializeField u T w r' = .ok v) ∨
      ∃ f f' w', deserializeField u T w r = .error (f, w') ∧
        deserializeField u T w r' = .error (f', w') ∧ f.forgetMessage = f'.forgetMessage :=
  forgetMessage_cases (deserializeField_alike u T w r r' h)

/-- A map that ends after its key, under other names and with other tags. -/
theorem deserialize_alike_renamed :
    (∃ v, deserializeField .zeroed mapFieldTy SortedMap.empty ⟨.map, str "m", .records
          [⟨.signedInt32, str "key", .scalar .int32 32⟩]⟩ = .ok v ∧
        deserializeField .zeroed mapFieldTy SortedMap.empty ⟨.list, str "n", .records
          [⟨.nullValue, [], .scalar .int32 32⟩]⟩ = .ok v) ∨
      ∃ f f' w', deserializeField .zeroed mapFieldTy SortedMap.empty ⟨.map, str "m", .records
          [⟨.signedInt32, str "key", .scalar .int32 32⟩]⟩ = .error (f, w') ∧
        deserializeField .zeroed mapFieldTy SortedMap.empty ⟨.list, str "n", .records
          [⟨.nullValue, [], .scalar .int32 32⟩]⟩ = .error (f', w') ∧
        f.forgetMessage = f'.forgetMessage :=
  deserialize_alike .zeroed mapFieldTy SortedMap.empty _ _
    (.node _ _ _ _ _ _ (.cons (.leaf _ _ _ _ _ fun _ => by simp only [reduceCtorEq,
      not_false_eq_true, ne_eq]) .nil))

end Nanoservices
