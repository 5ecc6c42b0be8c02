import Nanoservices.Configuration.LastWriter
import Nanoservices.Library.Reading

/-!
# Property Names Behind Pointers

`configuration::get_property(const char *)`, which guards against a pointer that
does not lead to a C string before it makes a `std::string` of the name and
calls the other overload. It looks at the memory three times: one byte, to find
an empty name; at most 257 bytes, to find a name that is too long; and the name
itself, up to its NUL and however far that is.

The last of these has no bound of its own. It is safe because the second found
a NUL, and `getPropertyCharPtr_bounded` says so for every memory that holds a
NUL or is 257 bytes long: nothing is read behind the first NUL, nor at offset
257 or behind it.

What the function answers for a name that is too long is not what the header
promises. It says that the pointer returned is then empty, as for a property
that is absent, so that a caller uses its default; the pointer returned leads to
an empty string, which a caller takes for a value. With names that are short
enough every run with lookups by pointer is a run with lookups by string
(`run_pointerStep`), so what is known of those holds for these.

## Main definitions

* `maxPropertynameLenConstcharptr`: `MAX_PROPERTYNAME_LEN_CONSTCHARPTR`.
* `passesGuards`: Whether a name is neither empty nor too long.
* `getPropertyCharPtr`: `configuration::get_property(const char *)`.
* `OverloadsAgree`: What the header says about the two overloads.
* `Passable`: The names that may be passed as C strings.
* `PointerCall`, `pointerStep`: The configuration with both overloads.

## Theorems

* `passesGuards_eq`: What the guards decide and read.
* `getPropertyCharPtr_bounded`: No read goes past the NUL or the limit.
* `getPropertyCharPtr_cString`: What a name is answered with.
* `overloadsAgree_iff`: The overloads agree on the names that are short enough.
* `run_pointerStep`: Runs with lookups by pointer.
-/

namespace Nanoservices

namespace Configuration

open Reading

/-- `MAX_PROPERTYNAME_LEN_CONSTCHARPTR` -/
def maxPropertynameLenConstcharptr : Nat := 256

/-- `::strncmp(s, p, n) == 0`, for a literal `s`. -/
def strncmpEqual (s memory : Str) (n : Nat) : Reading Undefined Bool :=
  equalUpTo .outOfBounds 0 n s memory

/-- `::strnlen(p, maxlen)` -/
def strnlen (memory : Str) (maxlen : Nat) : Reading Undefined Nat :=
  scanUpTo .outOfBounds 0 maxlen memory

/-- `string(p)`: find the NUL, then copy the bytes before it. -/
def stringOfCharPtr (memory : Str) : Reading Undefined Str :=
  (scan .outOfBounds 0 memory).bind fun length => copy .outOfBounds length memory

/-- The checks of the bytes behind the pointer that come before the string is
    made: whether the name is neither empty nor too long. -/
def passesGuards (memory : Str) : Reading Undefined Bool :=
  (strncmpEqual [] memory 1).bind fun isEmpty =>
    if isEmpty then .pure false
    else (strnlen memory (maxPropertynameLenConstcharptr + 1)).bind fun length =>
      .pure (length ≠ maxPropertynameLenConstcharptr + 1)

/-- `configuration::get_property`, on a `const char *`: null, or the memory that
    may be read through it. -/
def getPropertyCharPtr (propertyName : Option Str) (properties : Properties) :
    Reading Undefined (Properties × Option Str) :=
  match propertyName with
  | none => .pure (properties, some [])
  | some memory => (passesGuards memory).bind fun passed =>
    if passed then
      (stringOfCharPtr memory).bind fun propertyNameStr =>
        .pure (getProperty propertyNameStr properties)
    -- An empty string, not an empty pointer.
    else .pure (properties, some [])

/-! ### What is read -/

/-- There is a NUL, or as much memory as the guards may look at. -/
def Guarded (memory : Str) : Prop :=
  0 ∈ memory ∨ maxPropertynameLenConstcharptr + 1 ≤ memory.length

/-- The offset is not behind the NUL of the name, and not beyond the limit. -/
def InName (memory : Str) (i : Nat) : Prop :=
  i ≤ (cString memory).length ∧ i < maxPropertynameLenConstcharptr + 1

/-- The name has at least one byte and at most the maximum. -/
def Admitted (memory : Str) : Prop :=
  1 ≤ (cString memory).length ∧ (cString memory).length ≤ maxPropertynameLenConstcharptr

instance instDecidableAdmitted (memory : Str) : Decidable (Admitted memory) := instDecidableAnd

/-- Guarded memory has a first byte to be compared. -/
theorem Guarded.ne_nil (memory : Str) (h : Guarded memory) : memory ≠ [] := by
  rintro rfl
  rcases h with h | h
  · exact absurd h List.not_mem_nil
  · exact absurd h (Nat.not_succ_le_zero _)

/-- The guards let the admitted names pass, and read nothing but the name. -/
theorem finds_passesGuards (memory : Str) (h : Guarded memory) :
    Finds (InName memory) (passesGuards memory) (decide (Admitted memory)) := by
  have hbyte : Finds (InName memory) (strncmpEqual [] memory 1)
      (decide (cString memory = [])) := by
    refine (finds_equalUpTo_nil Undefined.outOfBounds 0 0 memory (h.ne_nil memory)).mono ?_
    rintro i rfl
    exact ⟨Nat.zero_le _, Nat.succ_pos _⟩
  refine hbyte.bind ?_
  by_cases hempty : cString memory = []
  · -- The empty name is turned away at its NUL.
    have hnot : ¬ Admitted memory := by
      intro hadm
      rw [Admitted, hempty] at hadm
      exact absurd hadm.1 (Nat.not_succ_le_zero 0)
    rw [decide_eq_true hempty, if_pos rfl, decide_eq_false hnot]
    exact finds_pure _ false
  · -- The length is found unless it is beyond the limit.
    have hpos := List.length_pos_iff.mpr hempty
    rw [decide_eq_false hempty, if_neg Bool.false_ne_true]
    refine (finds_scanUpTo Undefined.outOfBounds 0 _ memory h).bind ?_
    have hiff : min (maxPropertynameLenConstcharptr + 1) (cString memory).length ≠
        maxPropertynameLenConstcharptr + 1 ↔ Admitted memory := by
      unfold Admitted
      omega
    rw [← decide_eq_decide.mpr hiff]
    exact finds_pure _ _

/-- Where the guards let a name pass, its NUL is within the limit. -/
theorem zero_mem_of_admitted (memory : Str) (h : Guarded memory) (hadm : Admitted memory) :
    0 ∈ memory := by
  by_contra hzero
  -- Without a NUL the whole memory would be the name, and too long.
  have hlong := h.resolve_left hzero
  rw [Admitted, cString, ← beforeFirst, beforeFirst_of_not_mem 0 memory hzero] at hadm
  omega

/-- The string is made of the bytes before the NUL, and no byte behind it is
    read. -/
theorem finds_stringOfCharPtr (memory : Str) (h : 0 ∈ memory) :
    Finds (· ≤ (cString memory).length) (stringOfCharPtr memory) (cString memory) := by
  refine (finds_scan Undefined.outOfBounds 0 memory h).bind ?_
  have hle : (beforeFirst 0 memory).length ≤ memory.length := (List.takeWhile_prefix _).length_le
  have hcopy := finds_copy Undefined.outOfBounds _ memory hle
  rw [beforeFirst_eq_take] at hcopy
  refine hcopy.mono ?_
  intro i hi
  exact Nat.le_of_lt hi

/-- A name that passes the guards is looked up, and any other is answered with
    an empty string; nothing but the name is read. -/
theorem finds_getPropertyCharPtr (memory : Str) (h : Guarded memory) (properties : Properties) :
    Finds (InName memory) (getPropertyCharPtr (some memory) properties)
      (if Admitted memory then getProperty (cString memory) properties
        else (properties, some [])) := by
  refine (finds_passesGuards memory h).bind ?_
  by_cases hadm : Admitted memory
  · rw [decide_eq_true hadm, if_pos rfl, if_pos hadm]
    -- The string is only made behind the guards, where the NUL is known to be near.
    have hstring := finds_stringOfCharPtr memory (zero_mem_of_admitted memory h hadm)
    refine Finds.bind (hstring.mono ?_) (finds_pure _ _)
    intro i hi
    have hlen := hadm.2
    exact ⟨hi, by omega⟩
  · rw [decide_eq_false hadm, if_neg Bool.false_ne_true, if_neg hadm]
    exact finds_pure _ _

/-- On memory that holds a NUL or is as long as the limit and a byte, the
    function returns and reads nothing behind the first NUL and nothing beyond
    the limit. The string is made only if there is a NUL within the limit, and
    then of the bytes before it. -/
theorem getPropertyCharPtr_bounded (memory : Str) (h : Guarded memory) (properties : Properties) :
    (∃ answer, (getPropertyCharPtr (some memory) properties).result = .ok answer) ∧
    (∀ i ∈ (getPropertyCharPtr (some memory) properties).reads,
      i < 257 ∧ ∀ j < i, memory[j]? ≠ some 0) ∧
    ((passesGuards memory).result = .ok true → (∃ j, j < 257 ∧ memory[j]? = some 0) ∧
      (stringOfCharPtr memory).result = .ok (cString memory) ∧
      1 ≤ (cString memory).length ∧ (cString memory).length ≤ 256) := by
  have hfinds := finds_getPropertyCharPtr memory h properties
  refine ⟨⟨_, hfinds.1⟩, ?_, ?_⟩
  · intro i hi
    -- All reads are in the name or at its NUL.
    rcases hfinds.2 i hi with ⟨hname, hlimit⟩
    refine ⟨hlimit, ?_⟩
    intro j hj
    exact getElem?_ne_of_lt_beforeFirst 0 memory j (Nat.lt_of_lt_of_le hj hname)
  · intro hpassed
    have hadm : Admitted memory := by
      rw [(finds_passesGuards memory h).1, Except.ok.injEq, decide_eq_true_eq] at hpassed
      exact hpassed
    -- The string is made of an admitted name, so its NUL is within the limit.
    have hzero := zero_mem_of_admitted memory h hadm
    refine ⟨⟨(cString memory).length, ?_, ?_⟩, (finds_stringOfCharPtr memory hzero).1, hadm⟩
    · exact Nat.lt_succ_of_le hadm.2
    · exact getElem?_length_beforeFirst 0 memory hzero

/-- A name of `n + 1` bytes. -/
def sampleName (n : Nat) : Str := List.replicate (n + 1) 97

/-- It has that length, and no NUL. -/
theorem sampleName_spec (n : Nat) :
    (sampleName n).length = n + 1 ∧ (0 : UInt8) ∉ sampleName n ∧ sampleName n ≠ [] := by
  refine ⟨List.length_replicate, ?_, List.cons_ne_nil _ _⟩
  intro h
  exact absurd (List.eq_of_mem_replicate h) (by decide)

/-- A buffer of 257 bytes without a NUL is read to its end and no further. -/
theorem getPropertyCharPtr_bounded_unterminated :
    (∃ answer, (getPropertyCharPtr (some (sampleName 256)) SortedMap.empty).result =
      .ok answer) ∧
    ∀ i ∈ (getPropertyCharPtr (some (sampleName 256)) SortedMap.empty).reads, i < 257 := by
  have hguarded : Guarded (sampleName 256) := by
    refine Or.inr ?_
    rw [(sampleName_spec 256).1, maxPropertynameLenConstcharptr]
  rcases getPropertyCharPtr_bounded _ hguarded SortedMap.empty with ⟨hok, hreads, _⟩
  refine ⟨hok, ?_⟩
  intro i hi
  exact (hreads i hi).1

/-! ### What is answered -/

/-- What the header says of a name that is passed as a C string: the answer is
    that of the other overload, unless the name is too long; then it is an empty
    pointer, and nothing happens. -/
def OverloadsAgree (name rest : Str) (properties : Properties) : Prop :=
  (getPropertyCharPtr (some (name ++ 0 :: rest)) properties).result =
    .ok (if name.length ≤ maxPropertynameLenConstcharptr then getProperty name properties
      else (properties, none))

/-- A name is answered as by the other overload if it is short enough, and by an
    empty string if it is not. -/
theorem getPropertyCharPtr_cString (name rest : Str) (h0 : (0 : UInt8) ∉ name) (hne : name ≠ [])
    (properties : Properties) :
    (getPropertyCharPtr (some (name ++ 0 :: rest)) properties).result =
      .ok (if name.length ≤ maxPropertynameLenConstcharptr then getProperty name properties
        else (properties, some [])) := by
  have hguarded : Guarded (name ++ 0 :: rest) := Or.inl List.mem_append_cons_self
  have hname : cString (name ++ 0 :: rest) = name := beforeFirst_append_cons 0 name rest h0
  have hpos := List.length_pos_iff.mpr hne
  -- The name is not empty, so only its length can turn it away.
  have hadm : Admitted (name ++ 0 :: rest) ↔ name.length ≤ maxPropertynameLenConstcharptr := by
    rw [Admitted, hname]
    exact and_iff_right hpos
  rw [(finds_getPropertyCharPtr _ hguarded properties).1]
  by_cases hshort : name.length ≤ maxPropertynameLenConstcharptr
  · rw [if_pos (hadm.mpr hshort), if_pos hshort, hname]
  · rw [if_neg (hadm.not.mpr hshort), if_neg hshort]

/-- The name may be passed as a C string: it is not empty, holds no NUL and is
    short enough. -/
structure Passable (name : Str) : Prop where
  nul_free : (0 : UInt8) ∉ name
  ne_nil : name ≠ []
  short : name.length ≤ maxPropertynameLenConstcharptr

/-- A name that may be passed is answered as by the other overload. -/
theorem Passable.getPropertyCharPtr (name rest : Str) (h : Passable name)
    (properties : Properties) :
    (getPropertyCharPtr (some (name ++ 0 :: rest)) properties).result =
      .ok (getProperty name properties) := by
  rw [getPropertyCharPtr_cString name rest h.nul_free h.ne_nil, if_pos h.short]

/-- The overloads agree as the header says exactly on the names that are short
    enough. A name that is too long never gets to the other overload: it is
    answered with an empty string, where the header promises an empty pointer. -/
theorem overloadsAgree_iff (name rest : Str) (h0 : (0 : UInt8) ∉ name) (hne : name ≠ [])
    (properties : Properties) :
    OverloadsAgree name rest properties ↔ name.length ≤ maxPropertynameLenConstcharptr := by
  rw [OverloadsAgree, getPropertyCharPtr_cString name rest h0 hne, Except.ok.injEq]
  by_cases hshort : name.length ≤ maxPropertynameLenConstcharptr
  · rw [if_pos hshort, if_pos hshort]
    exact iff_of_true rfl hshort
  · rw [if_neg hshort, if_neg hshort, Prod.mk.injEq]
    refine iff_of_false ?_ hshort
    intro h
    exact Option.some_ne_none _ h.2

/-- A name of 256 bytes, and one of 257. -/
theorem overloadsAgree_iff_boundary :
    OverloadsAgree (sampleName 255) [] SortedMap.empty ∧
      ¬ OverloadsAgree (sampleName 256) [] SortedMap.empty := by
  constructor
  · rcases sampleName_spec 255 with ⟨hlength, h0, hne⟩
    exact (overloadsAgree_iff (sampleName 255) [] h0 hne SortedMap.empty).mpr hlength.le
  · rcases sampleName_spec 256 with ⟨hlength, h0, hne⟩
    refine (overloadsAgree_iff (sampleName 256) [] h0 hne SortedMap.empty).not.mpr ?_
    rw [hlength]
    decide

/-- A name of 257 bytes is answered with an empty string, also by the empty
    configuration. -/
theorem not_overloadsAgree_long :
    ¬ ∀ name rest : Str, (0 : UInt8) ∉ name → name ≠ [] →
      OverloadsAgree name rest SortedMap.empty := by
  intro h
  rcases sampleName_spec 256 with ⟨hlength, h0, hne⟩
  have hagree := h (sampleName 256) [] h0 hne
  have hlong : ¬ 256 + 1 ≤ maxPropertynameLenConstcharptr := by decide
  rw [OverloadsAgree, getPropertyCharPtr_cString _ [] h0 hne, hlength, if_neg hlong,
    if_neg hlong] at hagree
  exact Option.some_ne_none _ (congrArg Prod.snd (Except.ok.inj hagree))

/-! ### Runs -/

/-- A call to the configuration, where a lookup may be by pointer. -/
inductive PointerCall
  | call (c : Call)
  | getPropertyCharPtr (name rest : Str)

/-- The same call with a `std::string`. -/
def PointerCall.toCall : PointerCall → Call
  | .call c => c
  | .getPropertyCharPtr name _ => .getProperty name

/-- A name that is passed as a C string may be passed so. -/
def PointerCall.Passable : PointerCall → Prop
  | .call _ => True
  | .getPropertyCharPtr name _ => Configuration.Passable name

/-- One call. -/
def pointerStep (properties : Properties) : PointerCall → Except Undefined (Properties × Answer)
  | .call c => step properties c
  | .getPropertyCharPtr name rest =>
    match (getPropertyCharPtr (some (name ++ 0 :: rest)) properties).result with
    | .error u => .error u
    | .ok (properties', value) => .ok (properties', .property value)

/-- So a call with such a name is the call of the other overload. -/
theorem pointerStep_eq (properties : Properties) (call : PointerCall) (h : call.Passable) :
    pointerStep properties call = step properties call.toCall := by
  cases call with
  | call c => rfl
  | getPropertyCharPtr name rest =>
      rw [pointerStep, h.getPropertyCharPtr name rest]
      rfl

/-- With names that may be passed as C strings, a run with lookups by pointer is
    the same run with lookups by string. -/
theorem run_pointerStep (calls : List PointerCall) (h : ∀ call ∈ calls, call.Passable)
    (properties : Properties) :
    Machine.run pointerStep properties calls =
      Machine.run step properties (calls.map PointerCall.toCall) := by
  refine Machine.run_map pointerStep step PointerCall.toCall calls ?_ properties
  intro call hcall properties'
  exact pointerStep_eq properties' call (h call hcall)

end Configuration

end Nanoservices
