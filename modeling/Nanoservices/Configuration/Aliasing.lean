import Nanoservices.Configuration.LastWriter

/-!
# Pointers into the Configuration

`get_property` returns the `shared_ptr` that `_properties` holds, not a copy of
the string behind it. Whoever writes through the pointer of a lookup writes the
property, and whoever holds the pointer of another lookup sees it.

How far that goes is told by `watch`, from the calls alone. It follows one name:
the text of the property, and the lookups whose pointers lead to it. Binding the
name makes a new string, so the pointers of earlier lookups are cut off from the
property, and a lookup of another name never leads to it. `getProperty_watched`
says that nothing else is needed to know what a lookup of the name will return,
in every run of initializations, lookups, reads and writes.

Where nobody writes, this is the last-writer map again (`watch_unwritten`).

## Main definitions

* `Store`: `_properties`, with its pointers and the strings they lead to.
* `sharedInitialize`, `sharedGetProperty`: The functions of `configuration`.
* `SharedCall`, `sharedStep`: The configuration as a machine.
* `Known`, `watch`: What is known of a property.
* `Owned`, `Watches`: What every run keeps.

## Theorems

* `sharedInitialize_ok`: `initialize` assigns its bindings from left to right.
* `sharedStep_watches`: One call.
* `getProperty_watched`: Every run.
* `watch_unwritten`: A run in which nothing is written.
-/

namespace Nanoservices

namespace Configuration

/-- The configuration, and the results of the lookups so far. -/
structure Store where
  /-- The strings that `make_shared` has made. -/
  strings : List Str
  /-- `_properties` -/
  properties : SortedMap Str (Option Nat)
  /-- What the lookups have returned, null pointers included. -/
  returned : List (Option Nat)

/-- No properties, and no lookups yet. -/
def Store.empty : Store := ⟨[], SortedMap.empty, []⟩

/-- `_properties[name] = make_shared<string>(value)` -/
def Store.assign (s : Store) (b : Str × Str) : Store :=
  ⟨s.strings ++ [b.2], s.properties.insert b.1 (some s.strings.length), s.returned⟩

/-- The loop of `initialize`. -/
def sharedInitializeLoop (argc : Int) (argv : ArgumentVector) (i : Nat) (s : Store) :
    Except Undefined Store :=
  if (i : Int) < argc - 1 then
    match readArgument argv i with
    | .error u => .error u
    | .ok name => match readArgument argv (i + 1) with
      | .error u => .error u
      | .ok value => sharedInitializeLoop argc argv (i + 2) (s.assign (name, value))
  else .ok s
termination_by (argc - i).toNat
decreasing_by omega

/-- `configuration::initialize` -/
def sharedInitialize (argc : Int) (argv : ArgumentVector) (s : Store) : Except Undefined Store :=
  if argc < 3 then .ok s
  else sharedInitializeLoop argc argv 1 s

/-- `configuration::get_property`, on a `std::string`. -/
def sharedGetProperty (propertyName : Str) (s : Store) : Store × Option Nat :=
  -- `make_shared<string>()`
  if propertyName = [] then
    (⟨s.strings ++ [[]], s.properties, s.returned⟩, some s.strings.length)
  else match s.properties.find? propertyName with
    | none => (⟨s.strings, s.properties.insert propertyName none, s.returned⟩, none)
    | some result => (s, result)

/-- A call to the configuration, or a use of what a lookup has returned. The
    lookups are numbered from zero. -/
inductive SharedCall
  | initializeArgv (argc : Int) (argv : ArgumentVector)
  | getProperty (propertyName : Str)
  | read (j : Nat)
  | write (j : Nat) (text : Str)

/-- What a call answers: nothing, a pointer that may be null, or the text behind
    one. -/
inductive SharedAnswer
  | done
  | property (result : Option Nat)
  | text (s : Str)

/-- Follow the pointer of a lookup. -/
def Store.pointer (s : Store) (j : Nat) : Except Undefined Nat :=
  match s.returned[j]? with
  | none => .error .outOfBounds
  | some none => .error .nullDereference
  | some (some c) => .ok c

/-- One call. -/
def sharedStep (s : Store) : SharedCall → Except Undefined (Store × SharedAnswer)
  | .initializeArgv argc argv => match sharedInitialize argc argv s with
    | .error u => .error u
    | .ok s' => .ok (s', .done)
  | .getProperty name => match sharedGetProperty name s with
    | (s', result) => .ok (⟨s'.strings, s'.properties, s'.returned ++ [result]⟩, .property result)
  | .read j => match s.pointer j with
    | .error u => .error u
    | .ok c => match s.strings[c]? with
      | none => .error .outOfBounds
      | some text => .ok (s, .text text)
  | .write j text => match s.pointer j with
    | .error u => .error u
    | .ok c => .ok (⟨s.strings.set c text, s.properties, s.returned⟩, .done)

/-! ### What is known of a property -/

/-- What is known of the property of a name. -/
structure Known where
  /-- How many lookups there have been, of any name. -/
  lookups : Nat
  /-- The lookups whose pointers lead to the property. -/
  holders : List Nat
  text : Option Str

/-- A binding of the name makes a string that nobody has a pointer to. -/
def Known.bind (name : Str) (k : Known) (b : Str × Str) : Known :=
  if b.1 = name then ⟨k.lookups, [], some b.2⟩ else k

/-- A call adds to what is known. -/
def Known.call (name : Str) (k : Known) : SharedCall → Known
  | .initializeArgv argc argv => (bindings argc argv).foldl (Known.bind name) k
  | .getProperty name' =>
    ⟨k.lookups + 1,
      if name' = name ∧ k.text.isSome then k.holders ++ [k.lookups] else k.holders, k.text⟩
  | .read _ => k
  | .write j text => if j ∈ k.holders then ⟨k.lookups, k.holders, some text⟩ else k

/-- What is known of a property after some calls. -/
def watch (name : Str) (calls : List SharedCall) : Known :=
  calls.foldl (Known.call name) ⟨0, [], none⟩

/-! ### What the functions do -/

/-- Where the pointer stored under a name leads, if it is not null. -/
def Store.cell (s : Store) (name : Str) : Option Nat := (s.properties.find? name).join

/-- An argument that could be read is the one the specification has there. -/
theorem readArgument_ok (argv : ArgumentVector) (i : Nat) (text : Str)
    (h : readArgument argv i = .ok text) : text = argument argv i := by
  cases hargv : argv i with
  | none =>
      simp only [readArgument, hargv, reduceCtorEq] at h
  | some s =>
      simp only [readArgument, hargv, Except.ok.injEq] at h
      rw [argument, hargv, ← h, Option.map_some, Option.getD_some]

/-- A loop that comes to its end has assigned the pairs that were left. -/
theorem sharedInitializeLoop_ok (argc : Int) (argv : ArgumentVector) (n i : Nat)
    (hn : ((argc - i) / 2).toNat = n) (s s' : Store)
    (h : sharedInitializeLoop argc argv i s = .ok s') :
    s' = (bindingsFrom argv i n).foldl Store.assign s := by
  induction n generalizing i s with
  | zero =>
      -- At most one argument is left, and it has no partner.
      have hend : ¬ (i : Int) < argc - 1 := by omega
      rw [sharedInitializeLoop, if_neg hend, Except.ok.injEq] at h
      exact h.symm
  | succ n ih =>
      have hmore : (i : Int) < argc - 1 := by omega
      rw [sharedInitializeLoop, if_pos hmore] at h
      cases hname : readArgument argv i with
      | error u =>
          simp only [hname, reduceCtorEq] at h
      | ok name =>
          cases hvalue : readArgument argv (i + 1) with
          | error u =>
              simp only [hname, hvalue, reduceCtorEq] at h
          | ok value =>
              simp only [hname, hvalue] at h
              rw [bindingsFrom_succ, List.foldl_cons, ← readArgument_ok argv i name hname,
                ← readArgument_ok argv (i + 1) value hvalue]
              exact ih (i + 2) (by omega) (s.assign (name, value)) h

/-- What has been initialized without a fault has made the assignments of the
    command line, in its order. -/
theorem sharedInitialize_ok (argc : Int) (argv : ArgumentVector) (s s' : Store)
    (h : sharedInitialize argc argv s = .ok s') :
    s' = (bindings argc argv).foldl Store.assign s := by
  unfold sharedInitialize at h
  by_cases hargc : argc < 3
  · have hnone : ((argc - 1) / 2).toNat = 0 := by omega
    rw [if_pos hargc, Except.ok.injEq] at h
    rw [bindings, hnone]
    exact h.symm
  · rw [if_neg hargc] at h
    exact sharedInitializeLoop_ok argc argv _ 1 rfl s s' h

/-- An assignment puts a new string behind its name and leaves the other names
    where they are. -/
theorem cell_assign (s : Store) (b : Str × Str) (name : Str) :
    (s.assign b).cell name = if name = b.1 then some s.strings.length else s.cell name := by
  rw [Store.cell, Store.assign, SortedMap.find?_insert]
  by_cases hname : name = b.1
  · rw [if_pos hname, if_pos hname, Option.join_some]
  · rw [if_neg hname, if_neg hname, Store.cell]

/-- A lookup makes a string at most, for the empty name, and stores a null
    pointer at most. -/
structure Looked (s : Store) (propertyName : Str) (s' : Store) (result : Option Nat) : Prop where
  strings : s.strings <+: s'.strings
  cells : ∀ name, s'.cell name = s.cell name
  returned : s'.returned = s.returned
  answer : result = if propertyName = [] then some s.strings.length else s.cell propertyName
  made : ∀ c ∈ result, propertyName = [] → c < s'.strings.length

/-- What the strings of before said they go on saying. -/
theorem Looked.kept (s : Store) (propertyName : Str) (s' : Store) (result : Option Nat)
    (h : Looked s propertyName s' result) (c : Nat) (hc : c < s.strings.length) :
    s'.strings[c]? = s.strings[c]? := by
  rcases h.strings with ⟨made, hmade⟩
  rw [← hmade, List.getElem?_append_left hc]

/-- `sharedGetProperty` does what `Looked` says. -/
theorem looked (s : Store) (propertyName : Str) :
    Looked s propertyName (sharedGetProperty propertyName s).1
      (sharedGetProperty propertyName s).2 := by
  unfold sharedGetProperty
  by_cases hempty : propertyName = []
  · rw [if_pos hempty]
    refine ⟨List.prefix_append _ _, fun _ => rfl, rfl, (if_pos hempty).symm, ?_⟩
    intro c hc _
    rw [Option.mem_some] at hc
    rw [← hc, List.length_append]
    exact Nat.lt_succ_self _
  · rw [if_neg hempty]
    -- No string is made for a name.
    have hmade : ∀ (result : Option Nat) (s' : Store), ∀ c ∈ result, propertyName = [] →
        c < s'.strings.length := fun _ _ _ _ h => absurd h hempty
    cases hfind : s.properties.find? propertyName with
    | some result =>
        refine ⟨List.prefix_refl _, fun _ => rfl, rfl, ?_, hmade _ _⟩
        rw [if_neg hempty, Store.cell, hfind, Option.join_some]
    | none =>
        refine ⟨List.prefix_refl _, ?_, rfl, ?_, hmade _ _⟩
        · -- A stored null pointer leads nowhere, as no pointer does.
          intro name
          rw [Store.cell, Store.cell, SortedMap.find?_insert]
          by_cases hname : name = propertyName
          · rw [if_pos hname, hname, hfind]
            rfl
          · rw [if_neg hname]
        · rw [if_neg hempty, Store.cell, hfind, Option.join_none]

/-! ### What every run keeps -/

/-- Every pointer leads to a string, and those of different names to different
    ones. -/
structure Owned (s : Store) : Prop where
  stored : ∀ name c, s.cell name = some c → c < s.strings.length
  returned : ∀ (j c : Nat), s.returned[j]? = some (some c) → c < s.strings.length
  distinct : ∀ name name' c, s.cell name = some c → s.cell name' = some c → name = name'

/-- What is known of a property is so. -/
structure Watches (name : Str) (s : Store) (k : Known) : Prop where
  lookups : k.lookups = s.returned.length
  text : k.text = (s.cell name).bind fun c => s.strings[c]?
  holders : ∀ j, j ∈ k.holders ↔ ∃ c, s.cell name = some c ∧ s.returned[j]? = some (some c)

/-- An empty store holds no pointers. -/
theorem owned_empty : Owned Store.empty := by
  have hnone : ∀ name, Store.empty.cell name = none := fun _ => rfl
  refine ⟨?_, ?_, ?_⟩
  · intro name c hc
    rw [hnone] at hc
    exact absurd hc (Option.some_ne_none c).symm
  · intro j c hc
    rw [Store.empty, List.getElem?_nil] at hc
    exact absurd hc (Option.some_ne_none _).symm
  · intro name name' c hc _
    rw [hnone] at hc
    exact absurd hc (Option.some_ne_none c).symm

/-- Nothing is known of a name in an empty store. -/
theorem watches_empty (name : Str) : Watches name Store.empty ⟨0, [], none⟩ := by
  refine ⟨rfl, rfl, ?_⟩
  intro j
  refine iff_of_false List.not_mem_nil ?_
  rintro ⟨c, hc, _⟩
  exact absurd hc (Option.some_ne_none c).symm

/-- An assignment makes a string that nothing else leads to. -/
theorem Owned.assign (s : Store) (h : Owned s) (b : Str × Str) : Owned (s.assign b) := by
  have hlength : (s.assign b).strings.length = s.strings.length + 1 := List.length_append
  have hold : ∀ name c, name ≠ b.1 → (s.assign b).cell name = some c → s.cell name = some c := by
    intro name c hname hc
    rw [cell_assign, if_neg hname] at hc
    exact hc
  have hnew : ∀ name c, name = b.1 → (s.assign b).cell name = some c → c = s.strings.length := by
    intro name c hname hc
    rw [cell_assign, if_pos hname, Option.some.injEq] at hc
    exact hc.symm
  refine ⟨?_, ?_, ?_⟩
  · intro name c hc
    rw [hlength]
    -- A pointer is the new one or one that was stored before.
    by_cases hname : name = b.1
    · rw [hnew name c hname hc]
      exact Nat.lt_succ_self _
    · exact Nat.lt_succ_of_lt (h.stored name c (hold name c hname hc))
  · intro j c hc
    rw [hlength]
    exact Nat.lt_succ_of_lt (h.returned j c hc)
  · intro name name' c hc hc'
    by_cases hname : name = b.1
    · by_cases hname' : name' = b.1
      · rw [hname, hname']
      · -- The new string is behind all the old ones.
        have hlt := h.stored name' c (hold name' c hname' hc')
        rw [hnew name c hname hc] at hlt
        exact absurd hlt (lt_irrefl _)
    · by_cases hname' : name' = b.1
      · have hlt := h.stored name c (hold name c hname hc)
        rw [hnew name' c hname' hc'] at hlt
        exact absurd hlt (lt_irrefl _)
      · exact h.distinct name name' c (hold name c hname hc) (hold name' c hname' hc')

/-- The old strings stay as they are. -/
theorem getElem?_assign (s : Store) (b : Str × Str) (c : Nat) (hc : c < s.strings.length) :
    (s.assign b).strings[c]? = s.strings[c]? :=
  List.getElem?_append_left hc

/-- A binding of the name starts a new string, one of another name changes
    nothing that is known. -/
theorem Watches.assign (name : Str) (s : Store) (k : Known) (hs : Owned s) (h : Watches name s k)
    (b : Str × Str) : Watches name (s.assign b) (k.bind name b) := by
  rw [Known.bind]
  by_cases hname : b.1 = name
  · rw [if_pos hname]
    have hcell : (s.assign b).cell name = some s.strings.length := by
      rw [cell_assign, if_pos hname.symm]
    refine ⟨h.lookups, ?_, ?_⟩
    · rw [hcell, Option.bind_some, Store.assign, List.getElem?_concat_length]
    · -- No lookup has returned the new string.
      intro j
      refine iff_of_false List.not_mem_nil ?_
      rintro ⟨c, hc, hj⟩
      have hlt := hs.returned j c hj
      rw [hcell, Option.some.injEq] at hc
      rw [← hc] at hlt
      exact absurd hlt (lt_irrefl _)
  · rw [if_neg hname]
    -- The name keeps its string, and the string keeps its text.
    have hcell : (s.assign b).cell name = s.cell name := by
      rw [cell_assign, if_neg (Ne.symm hname)]
    refine ⟨h.lookups, ?_, ?_⟩
    · rw [h.text, hcell]
      cases hc : s.cell name with
      | none => rfl
      | some c =>
          rw [Option.bind_some, Option.bind_some, getElem?_assign s b c (hs.stored name c hc)]
    · rw [hcell]
      exact h.holders

/-- So do all the assignments of a command line, one after the other. -/
theorem assignAll_watches (name : Str) (bs : List (Str × Str)) (s : Store) (k : Known)
    (hs : Owned s) (h : Watches name s k) :
    Owned (bs.foldl Store.assign s) ∧
      Watches name (bs.foldl Store.assign s) (bs.foldl (Known.bind name) k) := by
  induction bs generalizing s k with
  | nil => exact ⟨hs, h⟩
  | cons b bs ih =>
      rw [List.foldl_cons, List.foldl_cons]
      exact ih _ _ (hs.assign s b) (h.assign name s k hs b)

/-- A lookup hands out a pointer that is stored, or one to a string of its own. -/
theorem Owned.lookup (s : Store) (h : Owned s) (propertyName : Str) (s' : Store)
    (result : Option Nat) (hlooked : Looked s propertyName s' result) :
    Owned ⟨s'.strings, s'.properties, s'.returned ++ [result]⟩ := by
  have hlength := hlooked.strings.length_le
  refine ⟨?_, ?_, ?_⟩
  · intro name c hc
    exact lt_of_lt_of_le (h.stored name c (hlooked.cells name ▸ hc)) hlength
  · intro j c hj
    -- The pointer is one that was returned before, or the one that is returned now.
    rcases List.mem_append.mp (List.mem_of_getElem? hj) with hmem | hmem
    · rw [hlooked.returned] at hmem
      rcases List.mem_iff_getElem?.mp hmem with ⟨j', hj'⟩
      exact lt_of_lt_of_le (h.returned j' c hj') hlength
    · rw [List.mem_singleton] at hmem
      by_cases hempty : propertyName = []
      · exact hlooked.made c hmem.symm hempty
      · rw [hlooked.answer, if_neg hempty] at hmem
        exact lt_of_lt_of_le (h.stored propertyName c hmem.symm) hlength
  · intro name name' c hc hc'
    exact h.distinct name name' c (hlooked.cells name ▸ hc) (hlooked.cells name' ▸ hc')

/-- A name has a text where the pointer under it is not null. -/
theorem Watches.isSome_text (name : Str) (s : Store) (k : Known) (hs : Owned s)
    (h : Watches name s k) : k.text.isSome ↔ ∃ c, s.cell name = some c := by
  rw [h.text]
  cases hc : s.cell name with
  | none => simp only [Option.bind_none, Option.isSome_none, Bool.false_eq_true, reduceCtorEq,
      exists_false]
  | some c =>
      rw [Option.bind_some, List.getElem?_eq_getElem (hs.stored name c hc)]
      exact iff_of_true rfl ⟨c, rfl⟩

/-- The pointer of a lookup leads to the property if the lookup is one of the
    name, and the name is bound. -/
theorem Watches.answer_iff (name : Str) (hname : name ≠ []) (s : Store) (k : Known) (hs : Owned s)
    (h : Watches name s k) (propertyName : Str) (s' : Store) (result : Option Nat)
    (hlooked : Looked s propertyName s' result) :
    (propertyName = name ∧ k.text.isSome) ↔ ∃ c, s.cell name = some c ∧ result = some c := by
  rw [h.isSome_text name s k hs, hlooked.answer]
  constructor
  · rintro ⟨rfl, c, hc⟩
    exact ⟨c, hc, by rw [if_neg hname, hc]⟩
  · rintro ⟨c, hc, hresult⟩
    by_cases hempty : propertyName = []
    · -- The empty name is answered with a string of its own.
      rw [if_pos hempty, Option.some.injEq] at hresult
      exact absurd (hresult ▸ hs.stored name c hc) (lt_irrefl _)
    · rw [if_neg hempty] at hresult
      -- Two names with one string would be the same name.
      exact ⟨hs.distinct propertyName name c hresult hc, c, hc⟩

/-- A lookup of the name is one more that leads to the property, if the name is
    bound. -/
theorem Known.mem_holders_lookup (name : Str) (k : Known) (propertyName : Str) (j : Nat) :
    j ∈ (k.call name (.getProperty propertyName)).holders ↔
      j ∈ k.holders ∨ (j = k.lookups ∧ propertyName = name ∧ k.text.isSome) := by
  rw [Known.call]
  by_cases hnew : propertyName = name ∧ k.text.isSome
  · rw [if_pos hnew, List.mem_append, List.mem_singleton]
    exact or_congr_right (iff_self_and.mpr fun _ => hnew)
  · rw [if_neg hnew]
    exact (or_iff_left fun h => hnew h.2).symm

/-- What is found in a list with one more element. -/
theorem getElem?_concat_iff {α : Type} (l : List α) (a b : α) (j : Nat) :
    (l ++ [a])[j]? = some b ↔ l[j]? = some b ∨ (j = l.length ∧ a = b) := by
  rcases Nat.lt_trichotomy j l.length with hlt | rfl | hgt
  · rw [List.getElem?_append_left hlt]
    exact (or_iff_left fun h => Nat.ne_of_lt hlt h.1).symm
  · rw [List.getElem?_concat_length, List.getElem?_eq_none (le_refl _), Option.some.injEq]
    simp only [reduceCtorEq, false_or, true_and]
  · have hnew : (l ++ [a])[j]? = none := by
      rw [List.getElem?_eq_none_iff, List.length_append, List.length_singleton]
      exact hgt
    rw [hnew, List.getElem?_eq_none hgt.le]
    simp only [reduceCtorEq, false_or, Nat.ne_of_gt hgt, false_and]

/-- After a lookup one more pointer has been returned, and it leads to the
    property if it was looked up under its name. -/
theorem Watches.lookup (name : Str) (hname : name ≠ []) (s : Store) (k : Known) (hs : Owned s)
    (h : Watches name s k) (propertyName : Str) (s' : Store) (result : Option Nat)
    (hlooked : Looked s propertyName s' result) :
    Watches name ⟨s'.strings, s'.properties, s'.returned ++ [result]⟩
      (k.call name (.getProperty propertyName)) := by
  have hcell : Store.cell ⟨s'.strings, s'.properties, s'.returned ++ [result]⟩ name = s.cell name :=
    hlooked.cells name
  refine ⟨?_, ?_, ?_⟩
  · rw [Known.call, h.lookups, hlooked.returned, List.length_append, List.length_singleton]
  · rw [Known.call, h.text, hcell]
    cases hc : s.cell name with
    | none => rfl
    | some c =>
        -- A lookup writes into no string.
        exact (hlooked.kept s propertyName s' result c (hs.stored name c hc)).symm
  · intro j
    have hanswer := h.answer_iff name hname s k hs propertyName s' result hlooked
    rw [Known.mem_holders_lookup, h.holders j, h.lookups, hanswer, hcell, hlooked.returned]
    simp only [getElem?_concat_iff, and_or_left, exists_or, and_left_comm, exists_and_left]

/-- A pointer that can be used is one that was returned, and it is not null. -/
theorem pointer_ok (s : Store) (j c : Nat) (h : s.pointer j = .ok c) :
    s.returned[j]? = some (some c) := by
  rw [Store.pointer] at h
  cases hj : s.returned[j]? with
  | none =>
      simp only [hj, reduceCtorEq] at h
  | some result =>
      cases result with
      | none =>
          simp only [hj, reduceCtorEq] at h
      | some c' =>
          simp only [hj, Except.ok.injEq] at h
          rw [h]

/-- A write changes no pointer. -/
theorem Owned.write (s : Store) (h : Owned s) (c : Nat) (text : Str) :
    Owned ⟨s.strings.set c text, s.properties, s.returned⟩ := by
  refine ⟨?_, ?_, h.distinct⟩
  · intro name c' hc'
    rw [List.length_set]
    exact h.stored name c' hc'
  · intro j c' hj
    rw [List.length_set]
    exact h.returned j c' hj

/-- A write changes the property that its pointer leads to, and no other. -/
theorem Watches.write (name : Str) (s : Store) (k : Known) (hs : Owned s) (h : Watches name s k)
    (j c : Nat) (hj : s.returned[j]? = some (some c)) (text : Str) :
    Watches name ⟨s.strings.set c text, s.properties, s.returned⟩
      (k.call name (.write j text)) := by
  -- Different names have different strings, so the pointer tells whose it is.
  have hholder : j ∈ k.holders ↔ s.cell name = some c := by
    rw [h.holders j, hj]
    constructor
    · rintro ⟨c', hc', hsame⟩
      rw [Option.some.injEq, Option.some.injEq] at hsame
      rw [hc', hsame]
    · intro hc
      exact ⟨c, hc, rfl⟩
  rw [Known.call]
  by_cases hmem : j ∈ k.holders
  · rw [if_pos hmem]
    refine ⟨h.lookups, ?_, h.holders⟩
    have hcell : Store.cell ⟨s.strings.set c text, s.properties, s.returned⟩ name = some c :=
      hholder.mp hmem
    rw [hcell, Option.bind_some, List.getElem?_set_self (hs.returned j c hj)]
  · -- Whatever it wrote, it was not this property.
    rw [if_neg hmem]
    refine ⟨h.lookups, ?_, h.holders⟩
    have hcell : Store.cell ⟨s.strings.set c text, s.properties, s.returned⟩ name = s.cell name :=
      rfl
    rw [hcell, h.text]
    cases hc : s.cell name with
    | none => rfl
    | some c' =>
        have hne : c ≠ c' := fun heq => hmem (hholder.mpr (heq ▸ hc))
        rw [Option.bind_some, Option.bind_some, List.getElem?_set_ne hne]

/-! ### Runs -/

/-- One call. -/
theorem sharedStep_watches (name : Str) (hname : name ≠ []) (s : Store) (k : Known) (hs : Owned s)
    (h : Watches name s k) (call : SharedCall) (s' : Store) (a : SharedAnswer)
    (hstep : sharedStep s call = .ok (s', a)) : Owned s' ∧ Watches name s' (k.call name call) := by
  cases call with
  | initializeArgv argc argv =>
      cases hinit : sharedInitialize argc argv s with
      | error u =>
          simp only [sharedStep, hinit, reduceCtorEq] at hstep
      | ok s₁ =>
          simp only [sharedStep, hinit, Except.ok.injEq, Prod.mk.injEq] at hstep
          rw [← hstep.1, sharedInitialize_ok argc argv s s₁ hinit]
          exact assignAll_watches name (bindings argc argv) s k hs h
  | getProperty propertyName =>
      -- A lookup always answers.
      have hlooked := looked s propertyName
      rw [sharedStep, Except.ok.injEq, Prod.mk.injEq] at hstep
      rw [← hstep.1]
      exact ⟨hs.lookup s propertyName _ _ hlooked,
        h.lookup name hname s k hs propertyName _ _ hlooked⟩
  | read j =>
      -- A null pointer would have ended the run, so this one leads to a string.
      cases hpointer : s.pointer j with
      | error u =>
          simp only [sharedStep, hpointer, reduceCtorEq] at hstep
      | ok c =>
          have hc := List.getElem?_eq_getElem (hs.returned j c (pointer_ok s j c hpointer))
          simp only [sharedStep, hpointer, hc, Except.ok.injEq, Prod.mk.injEq] at hstep
          rw [← hstep.1]
          exact ⟨hs, h⟩
  | write j text =>
      cases hpointer : s.pointer j with
      | error u =>
          simp only [sharedStep, hpointer, reduceCtorEq] at hstep
      | ok c =>
          simp only [sharedStep, hpointer, Except.ok.injEq, Prod.mk.injEq] at hstep
          rw [← hstep.1]
          exact ⟨hs.write s c text, h.write name s k hs j c (pointer_ok s j c hpointer) text⟩

/-- After every run what is known is so. -/
theorem run_watches (name : Str) (hname : name ≠ []) (calls : List SharedCall) (s : Store)
    (answers : List SharedAnswer)
    (hrun : Machine.run sharedStep Store.empty calls = .ok (s, answers)) :
    Owned s ∧ Watches name s (watch name calls) :=
  Machine.run_noted sharedStep (Known.call name) (fun s k => Owned s ∧ Watches name s k)
    (fun s k call s' a h => sharedStep_watches name hname s k h.1 h.2 call s' a) calls Store.empty
    ⟨0, [], none⟩ ⟨owned_empty, watches_empty name⟩ s answers hrun

/-- A lookup of a name returns a pointer to the text that is known of it. -/
theorem Watches.getProperty (name : Str) (hname : name ≠ []) (s : Store) (k : Known) (hs : Owned s)
    (h : Watches name s k) :
    ∃ s' result, sharedStep s (.getProperty name) = .ok (s', .property result) ∧
      (result.bind fun c => s'.strings[c]?) = k.text := by
  have hlooked := looked s name
  refine ⟨⟨(sharedGetProperty name s).1.strings, (sharedGetProperty name s).1.properties,
    (sharedGetProperty name s).1.returned ++ [(sharedGetProperty name s).2]⟩,
    (sharedGetProperty name s).2, rfl, ?_⟩
  rw [hlooked.answer, if_neg hname, h.text]
  cases hc : s.cell name with
  | none => rfl
  | some c => exact hlooked.kept s name _ _ c (hs.stored name c hc)

/-- After every run a lookup of a name returns a pointer to the text that is
    known of it, or null where none is known. The pointers of the lookups since
    the name was last bound lead to that text too: it is the last one that was
    bound to the name, or written through one of these since. -/
theorem getProperty_watched (calls : List SharedCall) (s : Store) (answers : List SharedAnswer)
    (hrun : Machine.run sharedStep Store.empty calls = .ok (s, answers)) (name : Str)
    (hname : name ≠ []) :
    (∃ s' result, sharedStep s (.getProperty name) = .ok (s', .property result) ∧
        (result.bind fun c => s'.strings[c]?) = (watch name calls).text) ∧
      ∀ j ∈ (watch name calls).holders, ∃ text, (watch name calls).text = some text ∧
        sharedStep s (.read j) = .ok (s, .text text) := by
  rcases run_watches name hname calls s answers hrun with ⟨hs, h⟩
  refine ⟨h.getProperty name hname s _ hs, ?_⟩
  intro j hj
  -- Such a pointer leads to the string of the name, which is still there.
  rcases (h.holders j).mp hj with ⟨c, hc, hreturned⟩
  have hc' := List.getElem?_eq_getElem (hs.stored name c hc)
  refine ⟨_, by rw [h.text, hc, Option.bind_some, hc'], ?_⟩
  simp only [sharedStep, Store.pointer, hreturned, hc']

/-- `main a value` -/
def commandLine (value : Str) : ArgumentVector := fun i => [str "main", str "a", value][i]?

/-- `a` is bound twice and looked up each time, and then there is a write through
    each of the pointers. -/
def sharedCalls : List SharedCall :=
  [.initializeArgv 3 (commandLine (str "1")), .getProperty (str "a"),
    .initializeArgv 3 (commandLine (str "2")), .getProperty (str "a"),
    .write 0 (str "3"), .write 1 (str "4")]

/-- The one assignment of such a command line. -/
theorem sharedInitialize_commandLine (value : Str) (s : Store) :
    sharedInitialize 3 (commandLine value) s = .ok (s.assign (str "a", cString value)) := by
  have hone : ((1 : Nat) : Int) < 3 - 1 := by decide
  have hthree : ¬ ((1 + 2 : Nat) : Int) < 3 - 1 := by decide
  have hname : readArgument (commandLine value) 1 = .ok (str "a") := rfl
  have hvalue : readArgument (commandLine value) (1 + 1) = .ok (cString value) := rfl
  rw [sharedInitialize, if_neg (by decide), sharedInitializeLoop, if_pos hone]
  simp only [hname, hvalue]
  rw [sharedInitializeLoop, if_neg hthree]

/-- The write through the pointer from before does not reach the property. -/
theorem getProperty_watched_sharedCalls : ∃ s s' result,
    sharedStep s (.getProperty (str "a")) = .ok (s', .property result) ∧
      (result.bind fun c => s'.strings[c]?) = some (str "4") := by
  have hrun : ∃ s answers, Machine.run sharedStep Store.empty sharedCalls = .ok (s, answers) := by
    refine ⟨⟨[str "3", str "4"],
      (SortedMap.empty.insert (str "a") (some 0)).insert (str "a") (some 1), [some 0, some 1]⟩,
      [.done, .property (some 0), .done, .property (some 1), .done, .done], ?_⟩
    simp only [sharedCalls, Machine.run, sharedStep, sharedInitialize_commandLine]
    rfl
  rcases hrun with ⟨s, answers, hrun⟩
  rcases (getProperty_watched sharedCalls s answers hrun (str "a") (by decide)).1 with
    ⟨s', result, hstep, htext⟩
  exact ⟨s, s', result, hstep, htext⟩

/-! ### Runs in which nothing is written -/

/-- What a call binds. -/
def SharedCall.bindings : SharedCall → List (Str × Str)
  | .initializeArgv argc argv => Configuration.bindings argc argv
  | .getProperty _ | .read _ | .write _ _ => []

/-- Bindings make the text the last of them, if it has been the last before. -/
theorem text_bindAll (name : Str) (bs bound : List (Str × Str)) (k : Known)
    (h : k.text = lastBinding bound name) :
    (bs.foldl (Known.bind name) k).text = lastBinding (bound ++ bs) name := by
  induction bs generalizing bound k with
  | nil =>
      rw [List.append_nil]
      exact h
  | cons b bs ih =>
      rw [List.foldl_cons, List.append_cons]
      refine ih _ _ ?_
      rw [lastBinding_append, Known.bind]
      -- A binding of the name sets the text, one of another name leaves it.
      by_cases hb : b.1 = name
      · rw [if_pos hb, if_pos hb]
      · rw [if_neg hb, if_neg hb, h]

/-- Where nobody writes, a property has the text that was bound to it last. -/
theorem watch_unwritten (name : Str) (calls : List SharedCall)
    (hcalls : ∀ call ∈ calls, ∀ j text, call ≠ .write j text) :
    (watch name calls).text = lastBinding (calls.flatMap SharedCall.bindings) name := by
  have hall : ∀ (k : Known) (bound : List (Str × Str)), k.text = lastBinding bound name →
      (calls.foldl (Known.call name) k).text =
        lastBinding (bound ++ calls.flatMap SharedCall.bindings) name := by
    induction calls with
    | nil =>
        intro k bound h
        rw [List.flatMap_nil, List.append_nil]
        exact h
    | cons call calls ih =>
        intro k bound h
        rw [List.forall_mem_cons] at hcalls
        rw [List.foldl_cons, List.flatMap_cons, ← List.append_assoc]
        refine ih hcalls.2 _ _ ?_
        -- Only command lines bind, and nothing else is left that could change a
        -- text.
        cases call with
        | initializeArgv argc argv => exact text_bindAll name _ bound k h
        | getProperty name' =>
            rw [SharedCall.bindings, List.append_nil]
            exact h
        | read j =>
            rw [SharedCall.bindings, List.append_nil]
            exact h
        | write j text => exact absurd rfl (hcalls.1 j text)
  exact hall ⟨0, [], none⟩ [] rfl

/-- In a run without writes the pointers do not show: a lookup returns the last
    binding, as the map of values does. -/
theorem getProperty_unwritten (calls : List SharedCall)
    (hcalls : ∀ call ∈ calls, ∀ j text, call ≠ .write j text) (s : Store)
    (answers : List SharedAnswer)
    (hrun : Machine.run sharedStep Store.empty calls = .ok (s, answers)) (name : Str)
    (hname : name ≠ []) :
    ∃ s' result, sharedStep s (.getProperty name) = .ok (s', .property result) ∧
      (result.bind fun c => s'.strings[c]?) =
        lastBinding (calls.flatMap SharedCall.bindings) name := by
  rcases run_watches name hname calls s answers hrun with ⟨hs, h⟩
  rw [← watch_unwritten name calls hcalls]
  exact h.getProperty name hname s _ hs

end Configuration

end Nanoservices
