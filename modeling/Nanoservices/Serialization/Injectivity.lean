import Nanoservices.Serialization.Encoding

/-!
# Different Values, Different Records

A record tells its value apart from every other value of the type, and its
field name from every other name, if no class inside the type has a member that
a local variable of the encoder hides: such members are not in the record.
Otherwise nothing is assumed of what constructors leave
in an object, so this also holds where decoding does not give the value back:
the decoder can mix the value with what was there, but the record has all of
it.

## Theorems

* `interleave_map_inj`: Equal layouts have equal pairs.
* `encode_injective`, `encodeFields_injective`: The value is in the record.
* `serializeField_injective`: The same for the encoder, whatever is cached.
-/

namespace Nanoservices

open Interleave

/-- Entries are recovered from the layout of their records. -/
theorem interleave_map_inj {κ ν : Type} (f : κ → Record) (g : ν → Record)
    (hf : ∀ k k', f k = f k' → k = k') (hg : ∀ v v', g v = g v' → v = v')
    (l l' : List (κ × ν))
    (h : interleave (l.map fun e => (f e.1, g e.2)) =
      interleave (l'.map fun e => (f e.1, g e.2))) : l = l' := by
  have hpairs := congrArg pairs h
  rw [pairs_interleave, pairs_interleave] at hpairs
  refine List.map_injective_iff.mpr ?_ hpairs
  intro e e' he
  rw [Prod.mk.injEq] at he
  exact Prod.ext (hf _ _ he.1) (hg _ _ he.2)

mutual
/-- The record of a value determines the value. -/
theorem encode_injective : ∀ {α : Type} (T : Ty α), T.Supported → T.Unshadowed serializeLocals →
    ∀ (n n' : Str) (v v' : α), (encode T n v).data = (encode T n' v').data → v = v'
  | _, .scalar s, _, _, n, n', v, v', h => by
      simp only [encode, Data.scalar.injEq, heq_eq_eq, true_and] at h
      exact h
  | _, .vector T, hT, hU, n, n', v, v', h => by
      simp only [encode, Data.records.injEq] at h
      have hitem : Function.Injective (encode T listItemRecordName) := by
        intro x y hxy
        exact encode_injective T hT hU _ _ x y (congrArg Record.data hxy)
      exact List.map_injective_iff.mpr hitem h
  | _, @Ty.map _ _ _ K V, hT, hU, n, n', m, m', h => by
      simp only [encode, Data.records.injEq] at h
      have hkey : ∀ k k', encode K mapItemKeyRecordName k = encode K mapItemKeyRecordName k' →
          k = k' := by
        intro k k' hk
        exact encode_injective K hT.1 hU.1 _ _ k k' (congrArg Record.data hk)
      have hvalue : ∀ x x', encode V mapItemValueRecordName x = encode V mapItemValueRecordName x' →
          x = x' := by
        intro x x' hx
        exact encode_injective V hT.2 hU.2 _ _ x x' (congrArg Record.data hx)
      -- Keys and values alternate, so the records of one map tell its entries.
      have hentries := interleave_map_inj _ _ hkey hvalue m.entries m'.entries h
      exact SortedMap.ext hentries
  | _, .cls F _, hT, hU, n, n', v, v', h => by
      simp only [encode, Data.records.injEq] at h
      exact encodeFields_injective F hT hU v v' h
/-- The same for the members of a class. Each of them is in its own record,
    since none is hidden. -/
theorem encodeFields_injective : ∀ {σ : Type} (F : Fields σ), F.Supported →
    F.Unshadowed serializeLocals → ∀ v v' : σ, encodeFields F v = encodeFields F v' → v = v'
  | _, .nil, _, _, _, _, _ => rfl
  | _, .cons arg T F, hF, hU, v, v', h => by
      rw [encodeFields, encodeFields, memberRecord_eq arg hU.1, memberRecord_eq arg hU.1,
        List.cons.injEq] at h
      have hfirst := encode_injective T hF.1 hU.2.1 _ _ v.1 v'.1 (congrArg Record.data h.1)
      have hrest := encodeFields_injective F hF.2 hU.2.2 v.2 v'.2 h.2
      exact Prod.ext hfirst hrest
end

/-- Serializing two objects of one type without hidden members gives the same
    record only if they are equal and the field names are, whatever the objects
    have cached. -/
theorem serializeField_injective {α : Type} (T : Ty α) (hT : T.Supported)
    (hU : T.Unshadowed serializeLocals) (n n' : Str) (v v' : α) (cache cache' : NameCache)
    (hcache : T.CacheOk cache) (hcache' : T.CacheOk cache') (r : Record) (c c' : NameCache)
    (h : serializeField T n v cache = .ok (r, c))
    (h' : serializeField T n' v' cache' = .ok (r, c')) : n = n' ∧ v = v' := by
  rcases serializeField_eq T hT n v cache hcache with ⟨_, heq, _⟩
  rcases serializeField_eq T hT n' v' cache' hcache' with ⟨_, heq', _⟩
  rw [heq, Except.ok.injEq, Prod.mk.injEq] at h
  rw [heq', Except.ok.injEq, Prod.mk.injEq] at h'
  have hr : encode T n v = encode T n' v' := h.1.trans h'.1.symm
  -- The name is in the record itself, and the value in its data.
  have hname := congrArg Record.fieldName hr
  rw [encode_fieldName, encode_fieldName] at hname
  exact ⟨hname, encode_injective T hT hU n n' v v' (congrArg Record.data hr)⟩

/-- The object of the repository's test, serialized twice. -/
theorem serializeField_injective_outer1 : str "outer1" = str "outer1" ∧ outer1 = outer1 := by
  have hnames := ((unshadowed_generatedLocals _).mp myOuterClass_unshadowed).1
  rcases serializeField_eq myOuterClass myOuterClass_supported (str "outer1") outer1 .fresh
    (cacheOk_fresh myOuterClass) with ⟨cache', h, hcache'⟩
  rcases serializeField_eq myOuterClass myOuterClass_supported (str "outer1") outer1 cache' hcache'
    with ⟨cache'', h', -⟩
  exact serializeField_injective myOuterClass myOuterClass_supported hnames _ _ _ _ .fresh cache'
    (cacheOk_fresh myOuterClass) hcache' _ cache' cache'' h h'

end Nanoservices
