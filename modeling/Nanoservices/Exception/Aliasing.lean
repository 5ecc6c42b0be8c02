import Nanoservices.Exception.NsException
import Nanoservices.Library.Machine

/-!
# Strings That Are Shared

`ns_exception` calls itself immutable, but it keeps its strings behind
`shared_ptr<std::string>` and hands the pointers out: `message()`,
`position()` and `whatstr()` return them, the constructors keep the ones they
are given, and a copy has those of the original. Whoever holds such a pointer
can write through it. Here the strings are cells that exceptions and the
program refer to, and writing a cell is an operation like any other.

What the exceptions say is then a matter of which cells are written.
`Describes` is the text that an exception would give of itself in a state, and
`Footprint` the cells that this text is made from: while the description is
not cached, the message and the position along the chain of causes down to the
first cached description; and once it is cached, the cell that `whatstr`
returns and nothing else. An exception that has been described once keeps its
description, unless it is overwritten through the very pointer that was handed
out.

## Main definitions

* `Shared`, `SharedObject`, `Memory`: Exceptions over string cells.
* `sharedWhatstr`: `whatstr` with the pointer it returns.
* `SharedOp`, `sharedStep`: The operations, with writes.
* `Describes`: What an exception says in a state.
* `Footprint`: The cells its description is made from.
* `Rooted`: No pointer leads nowhere.
* `Served`: What a request for a description returns and leaves.
* `Effect`: What an operation does to the memory.
* `Spares`: No write of a run goes to the footprint.
* `Keeps`: The pointer to a description that an object keeps.

## Theorems

* `Describes.unique`: An exception says one thing.
* `Describes.frame`: What an exception says is made from its footprint.
* `sharedWhatstr_spec`: Every request that returns is served.
* `sharedWhatstr_total`: Which requests return.
* `Effect.describes`: Who can change a description.
* `description_unchanged`: The same over runs.
* `whatstr_snapshot`: A description that was given stays, and its pointer.
-/

namespace Nanoservices

namespace Exception

/-- `ns_exception`, with the cells its pointers lead to. -/
structure Shared where
  /-- `_cause`, null or an object. -/
  cause : Option Nat
  message : Nat
  position : Nat
  /-- `_what`, null until the description is first asked for. -/
  what : Option Nat

/-- An object of a class derived from `std::exception`. -/
inductive SharedObject
  | nsException (e : Shared)
  /-- Any other class. -/
  | foreign

/-- The objects, and the strings behind the pointers. -/
structure Memory where
  strings : List Str
  objects : List SharedObject

/-- `fmt::format("Exception at {}: {}", …)` -/
def headlineText (position message : Str) : Str :=
  str "Exception at " ++ position ++ str ": " ++ message

/-- `fmt::format("Exception at {}: {}\nCaused by: {}", …)` -/
def causedText (position message causeWhat : Str) : Str :=
  headlineText position message ++ str "\nCaused by: " ++ cString causeWhat

namespace Memory

/-- Follow a pointer. -/
def deref (m : Memory) (c : Nat) : Except Undefined Str :=
  match m.strings[c]? with
  | none => .error .outOfBounds
  | some s => .ok s

/-- `make_shared<string>` -/
def makeString (m : Memory) (s : Str) : Memory := ⟨m.strings ++ [s], m.objects⟩

/-- Construct an object. -/
def makeObject (m : Memory) (o : SharedObject) : Memory := ⟨m.strings, m.objects ++ [o]⟩

/-- Make the description of an object, and keep it in the object. -/
def describe (m : Memory) (i : Nat) (e : Shared) (s : Str) : Memory × Nat :=
  (⟨m.strings ++ [s], m.objects.set i (.nsException { e with what := some m.strings.length })⟩,
    m.strings.length)

end Memory

/-- `ns_exception::whatstr` of the object at an index, with the pointer that it
    returns. The first argument bounds the recursion. -/
def sharedWhatstr : Nat → Memory → Nat → Except Undefined (Memory × Nat)
  | 0, _, _ => .error .stackOverflow
  | fuel + 1, m, i =>
    match m.objects[i]? with
    | some (.nsException e) =>
      match e.what with
      | some c => .ok (m, c)
      | none =>
        match e.cause with
        | none => match m.deref e.position, m.deref e.message with
          | .ok p, .ok t => .ok (m.describe i e (headlineText p t))
          | .error u, _ => .error u
          | _, .error u => .error u
        | some j => match sharedWhatstr fuel m j with
          | .error u => .error u
          | .ok (m', c) => match m'.deref c, m'.deref e.position, m'.deref e.message with
            | .ok w, .ok p, .ok t => .ok (m'.describe i e (causedText p t w))
            | .error u, _, _ => .error u
            | _, .error u, _ => .error u
            | _, _, .error u => .error u
    -- `dynamic_pointer_cast` has returned a null pointer.
    | _ => .error .nullDereference

/-- The body of the constructors: a new exception, whose pointers are kept as
    they are given. A pointer that is given leads somewhere. -/
def Memory.construct (m : Memory) (cause : Option Nat) (message position : Nat) :
    Except Undefined (Memory × Nat) :=
  if (∀ j ∈ cause, j < m.objects.length) ∧ message < m.strings.length ∧
      position < m.strings.length then
    .ok (m.makeObject (.nsException ⟨cause, message, position, none⟩), m.objects.length)
  else .error .outOfBounds

/-- The `ns_exception` at an index. -/
def Memory.exception (m : Memory) (i : Nat) : Except Undefined Shared :=
  match m.objects[i]? with
  | some (.nsException e) => .ok e
  | some .foreign => .error .typeConfusion
  | none => .error .outOfBounds

/-- What a program does with exceptions and with the strings in them. -/
inductive SharedOp
  /-- `make_shared<string>` -/
  | makeString (s : Str)
  /-- `ns_exception(const char *, position)` -/
  | newMessage (message : Str) (position : Nat)
  /-- `ns_exception(const exception &, message, position)` -/
  | newByReference (cause : Nat) (message position : Nat)
  /-- `ns_exception(shared_ptr<exception>, message, position)` -/
  | newCaused (cause : Option Nat) (message position : Nat)
  /-- The constructor of another exception class. -/
  | newForeign
  /-- The copy constructor. -/
  | copy (i : Nat)
  | cause (i : Nat)
  | message (i : Nat)
  | position (i : Nat)
  | whatstr (i : Nat)
  | what (i : Nat)
  /-- Read through a pointer. -/
  | read (c : Nat)
  /-- Write through a pointer. -/
  | write (c : Nat) (s : Str)

/-- A pointer to an object, a pointer to a string, or a text. -/
inductive SharedAnswer
  | object (i : Option Nat)
  | cell (c : Nat)
  | text (s : Str)
  | done

/-- One operation. -/
def sharedStep (m : Memory) : SharedOp → Except Undefined (Memory × SharedAnswer)
  | .makeString s => .ok (m.makeString s, .cell m.strings.length)
  -- The message is copied into a string of its own.
  | .newMessage message position => match m.deref position with
    | .error u => .error u
    | .ok _ => match (m.makeString (cString message)).construct none m.strings.length position with
      | .error u => .error u
      | .ok (m', i) => .ok (m', .object (some i))
  -- What is copied of the cause is its base class part.
  | .newByReference cause message position => match m.objects[cause]? with
    | none => .error .outOfBounds
    | some _ =>
      match (m.makeObject .foreign).construct (some m.objects.length) message position with
      | .error u => .error u
      | .ok (m', i) => .ok (m', .object (some i))
  | .newCaused cause message position => match m.construct cause message position with
    | .error u => .error u
    | .ok (m', i) => .ok (m', .object (some i))
  | .newForeign => .ok (m.makeObject .foreign, .object (some m.objects.length))
  | .copy i => match m.objects[i]? with
    | none => .error .outOfBounds
    | some o => .ok (m.makeObject o, .object (some m.objects.length))
  | .cause i => match m.exception i with
    | .error u => .error u
    | .ok e => .ok (m, .object e.cause)
  | .message i => match m.exception i with
    | .error u => .error u
    | .ok e => .ok (m, .cell e.message)
  | .position i => match m.exception i with
    | .error u => .error u
    | .ok e => .ok (m, .cell e.position)
  | .whatstr i => match sharedWhatstr m.objects.length m i with
    | .error u => .error u
    | .ok (m', c) => .ok (m', .cell c)
  | .what i => match sharedWhatstr m.objects.length m i with
    | .error u => .error u
    | .ok (m', c) => match m'.deref c with
      | .error u => .error u
      | .ok s => .ok (m', .text (cString s))
  | .read c => match m.deref c with
    | .error u => .error u
    | .ok s => .ok (m, .text s)
  | .write c s => match m.deref c with
    | .error u => .error u
    | .ok _ => .ok (⟨m.strings.set c s, m.objects⟩, .done)

/-! ### What an exception says -/

/-- The text that an exception gives of itself, if it is asked now. -/
inductive Describes (m : Memory) : Nat → Str → Prop
  | cached (i : Nat) (e : Shared) (c : Nat) (s : Str) (ho : m.objects[i]? = some (.nsException e))
      (hw : e.what = some c) (hs : m.strings[c]? = some s) : Describes m i s
  | plain (i : Nat) (e : Shared) (p t : Str) (ho : m.objects[i]? = some (.nsException e))
      (hw : e.what = none) (hc : e.cause = none) (hp : m.strings[e.position]? = some p)
      (ht : m.strings[e.message]? = some t) : Describes m i (headlineText p t)
  | caused (i : Nat) (e : Shared) (j : Nat) (p t w : Str)
      (ho : m.objects[i]? = some (.nsException e)) (hw : e.what = none) (hc : e.cause = some j)
      (hp : m.strings[e.position]? = some p) (ht : m.strings[e.message]? = some t)
      (hj : Describes m j w) : Describes m i (causedText p t w)

/-- The cells that the text is made from. -/
inductive Footprint (m : Memory) : Nat → Nat → Prop
  | cached (i : Nat) (e : Shared) (c : Nat) (ho : m.objects[i]? = some (.nsException e))
      (hw : e.what = some c) : Footprint m i c
  | position (i : Nat) (e : Shared) (ho : m.objects[i]? = some (.nsException e))
      (hw : e.what = none) : Footprint m i e.position
  | message (i : Nat) (e : Shared) (ho : m.objects[i]? = some (.nsException e))
      (hw : e.what = none) : Footprint m i e.message
  | cause (i : Nat) (e : Shared) (j c : Nat) (ho : m.objects[i]? = some (.nsException e))
      (hw : e.what = none) (hc : e.cause = some j) (hj : Footprint m j c) : Footprint m i c

/-! ### Pointers that lead somewhere -/

/-- The pointers of an object lead to the objects before it and to the strings
    there are. -/
def Placed (objects strings : Nat) : SharedObject → Prop
  | .foreign => True
  | .nsException e => (∀ j, e.cause = some j → j < objects) ∧ e.message < strings ∧
      e.position < strings ∧ ∀ c, e.what = some c → c < strings

/-- Every object is placed. -/
def Rooted (m : Memory) : Prop :=
  ∀ i o, m.objects[i]? = some o → Placed i m.strings.length o

/-- An object that is in its place is in its place further on as well, and in a
    larger memory. -/
theorem Placed.mono (n k n' k' : Nat) (o : SharedObject) (h : Placed n k o) (hn : n ≤ n')
    (hk : k ≤ k') : Placed n' k' o := by
  cases o with
  | foreign => exact trivial
  | nsException e =>
      rcases h with ⟨hcause, hmessage, hposition, hwhat⟩
      refine ⟨?_, by omega, by omega, ?_⟩
      · intro j hj
        have := hcause j hj
        omega
      · intro c hc
        have := hwhat c hc
        omega

/-- There are no pointers in an empty memory. -/
theorem rooted_nil : Rooted ⟨[], []⟩ := by
  intro i o h
  simp only [List.getElem?_nil, reduceCtorEq] at h

/-- A new string is pointed to by nothing. -/
theorem rooted_makeString (m : Memory) (h : Rooted m) (s : Str) : Rooted (m.makeString s) := by
  intro i o ho
  refine (h i o ho).mono _ _ _ _ _ (le_refl i) ?_
  simp only [Memory.makeString, List.length_append, List.length_singleton]
  omega

/-- A new object may only point to what was there before it. -/
theorem rooted_makeObject (m : Memory) (h : Rooted m) (o : SharedObject)
    (ho : Placed m.objects.length m.strings.length o) : Rooted (m.makeObject o) := by
  intro i o' ho'
  simp only [Memory.makeObject] at ho' ⊢
  -- The objects there were are in their places still.
  by_cases hi : i < m.objects.length
  · rw [List.getElem?_append_left hi] at ho'
    exact h i o' ho'
  · -- Behind the old objects there is only the new one.
    have hlt := (List.getElem?_eq_some_iff.mp ho').1
    rw [List.length_append, List.length_singleton] at hlt
    have heq : i = m.objects.length := by omega
    rw [heq, List.getElem?_concat_length, Option.some.injEq] at ho'
    rw [← ho', heq]
    exact ho

/-- The constructor takes its pointers from the caller, and they lead somewhere. -/
theorem rooted_construct (m : Memory) (h : Rooted m) (cause : Option Nat) (message position : Nat)
    (m' : Memory) (i : Nat) (hm : m.construct cause message position = .ok (m', i)) :
    Rooted m' := by
  unfold Memory.construct at hm
  split at hm
  case isTrue hlt =>
    simp only [Except.ok.injEq, Prod.mk.injEq] at hm
    rcases hm with ⟨rfl, -⟩
    refine rooted_makeObject m h _ ⟨hlt.1, hlt.2.1, hlt.2.2, ?_⟩
    intro c hc
    simp only [reduceCtorEq] at hc
  case isFalse => simp only [reduceCtorEq] at hm

/-- The description is a new string, to which its object points from now on. -/
theorem rooted_describe (m : Memory) (h : Rooted m) (i : Nat) (e : Shared) (k : Nat)
    (he : Placed i k (.nsException e)) (hk : k ≤ m.strings.length) (s : Str) :
    Rooted (m.describe i e s).1 := by
  have hlength : (m.describe i e s).1.strings.length = m.strings.length + 1 := by
    simp only [Memory.describe, List.length_append, List.length_singleton]
  intro j o ho
  rw [hlength]
  by_cases hij : i = j
  · subst hij
    have hlt := (List.getElem?_eq_some_iff.mp ho).1
    simp only [Memory.describe, List.length_set] at ho hlt
    rw [List.getElem?_set_self hlt, Option.some.injEq] at ho
    rw [← ho]
    -- The description is the new string, and the other pointers are the old ones.
    rcases he with ⟨hcause, hmessage, hposition, -⟩
    have hle : k ≤ m.strings.length + 1 := Nat.le_succ_of_le hk
    refine ⟨hcause, Nat.lt_of_lt_of_le hmessage hle, Nat.lt_of_lt_of_le hposition hle, ?_⟩
    intro c hc
    rw [Option.some.injEq] at hc
    omega
  · simp only [Memory.describe, List.getElem?_set_ne hij] at ho
    exact (h j o ho).mono _ _ _ _ _ (le_refl j) (Nat.le_succ _)

/-! ### Descriptions and what they are made from -/

/-- What is there stays when something is put behind it. -/
theorem getElem?_of_isPrefix {α : Type} (xs ys : List α) (h : xs <+: ys) (i : Nat) (a : α)
    (ha : xs[i]? = some a) : ys[i]? = some a := by
  rcases h with ⟨zs, rfl⟩
  rw [List.getElem?_append_left (List.getElem?_eq_some_iff.mp ha).1, ha]

/-- An exception says one thing. -/
theorem Describes.unique (m : Memory) (i : Nat) (s t : Str) (hs : Describes m i s)
    (ht : Describes m i t) : s = t := by
  -- The object decides which of the three cases it is, so both derivations end in the
  -- same one.
  induction hs generalizing t with
  | cached i e c s ho hw hs =>
      cases ht with
      | cached _ e' c' _ ho' hw' hs' => grind
      | plain _ e' p' t' ho' hw' => grind
      | caused _ e' j' p' t' w' ho' hw' => grind
  | plain i e p t ho hw hc hp ht' =>
      cases ht with
      | cached _ e' c' _ ho' hw' => grind
      | plain _ e' p' t' ho' hw' hc' hp' ht'' => grind
      | caused _ e' j' p' t' w' ho' hw' hc' => grind
  | caused i e j p t w ho hw hc hp ht' hj ih =>
      cases ht with
      | cached _ e' c' _ ho' hw' => grind
      | plain _ e' p' t' ho' hw' hc' => grind
      | caused _ e' j' p' t'' w' ho' hw' hc' hp' ht'' hj' =>
          have he : e = e' := by grind
          subst he
          have hjj : j = j' := by grind
          subst hjj
          -- Both describe the same cause, which says one thing.
          rw [ih w' hj']
          grind

/-- What an exception says is made from its footprint: where the objects and
    these cells are the same, it says the same. -/
theorem Describes.frame (m m' : Memory) (i : Nat) (s : Str) (h : Describes m i s)
    (hobjects : ∀ (j : Nat) (o : SharedObject), m.objects[j]? = some o → m'.objects[j]? = some o)
    (hstrings : ∀ (c : Nat) (t : Str), Footprint m i c → m.strings[c]? = some t →
      m'.strings[c]? = some t) :
    Describes m' i s := by
  induction h with
  | cached i e c s ho hw hs =>
      -- A kept description needs its own string and nothing else.
      exact .cached i e c s (hobjects i _ ho) hw (hstrings c s (.cached i e c ho hw) hs)
  | plain i e p t ho hw hc hp ht =>
      exact .plain i e p t (hobjects i _ ho) hw hc
        (hstrings _ p (.position i e ho hw) hp) (hstrings _ t (.message i e ho hw) ht)
  | caused i e j p t w ho hw hc hp ht hj ih =>
      refine .caused i e j p t w (hobjects i _ ho) hw hc
        (hstrings _ p (.position i e ho hw) hp) (hstrings _ t (.message i e ho hw) ht) (ih ?_)
      intro c r hfoot
      exact hstrings c r (.cause i e j c ho hw hc hfoot)

/-- A description that is kept is made from the string it is kept in. -/
theorem Footprint.of_cached (m : Memory) (i : Nat) (e : Shared) (d : Nat)
    (ho : m.objects[i]? = some (.nsException e)) (hw : e.what = some d) (c : Nat)
    (h : Footprint m i c) : c = d := by
  cases h with
  | cached e' _ ho' hw' => grind
  | position e' ho' hw' => grind
  | message e' ho' hw' => grind
  | cause e' j _ ho' hw' => grind

/-- New objects and new strings change no description. -/
theorem Describes.grows (m m' : Memory) (i : Nat) (s : Str) (h : Describes m i s)
    (hobjects : m.objects <+: m'.objects) (hstrings : m.strings <+: m'.strings) :
    Describes m' i s := by
  refine h.frame _ m' i s ?_ ?_
  · intro j o ho
    exact getElem?_of_isPrefix _ _ hobjects _ _ ho
  · intro c t _ ht
    exact getElem?_of_isPrefix _ _ hstrings _ _ ht

/-- What says something is there. -/
theorem Describes.lt_length (m : Memory) (i : Nat) (s : Str) (h : Describes m i s) :
    i < m.objects.length := by
  cases h with
  | cached _ _ _ _ ho => exact (List.getElem?_eq_some_iff.mp ho).1
  | plain _ _ _ _ ho => exact (List.getElem?_eq_some_iff.mp ho).1
  | caused _ _ _ _ _ _ ho => exact (List.getElem?_eq_some_iff.mp ho).1

section Describe

variable (m : Memory) (i : Nat) (e : Shared) (s : Str)

/-- The object itself has the new string for its description. -/
theorem object_describe_self (hi : i < m.objects.length) :
    (m.describe i e s).1.objects[i]? =
      some (.nsException { e with what := some m.strings.length }) :=
  List.getElem?_set_self hi

/-- The other objects stay as they are. -/
theorem object_describe_ne (j : Nat) (h : i ≠ j) :
    (m.describe i e s).1.objects[j]? = m.objects[j]? :=
  List.getElem?_set_ne h

/-- The new string is the description. -/
theorem string_describe_new : (m.describe i e s).1.strings[m.strings.length]? = some s :=
  List.getElem?_concat_length

/-- The strings there were stay, and keep their texts. -/
theorem strings_describe : m.strings <+: (m.describe i e s).1.strings :=
  List.prefix_append m.strings [s]

/-- Keeping the description of an object in it changes nobody's description:
    the object says what it said, and so does every exception that it is a
    cause of. -/
theorem describes_describe (hi : Describes m i s) (j : Nat) (t : Str) (hj : Describes m j t) :
    Describes (m.describe i e s).1 j t := by
  have hlt := hi.lt_length m i s
  have hself : Describes (m.describe i e s).1 i s :=
    .cached i _ _ s (object_describe_self m i e s hlt) rfl (string_describe_new m i e s)
  have hprefix := strings_describe m i e s
  induction hj with
  | cached j e' c t ho hw ht =>
      by_cases hij : i = j
      · subst hij
        rw [Describes.unique m i t s (.cached i e' c t ho hw ht) hi]
        exact hself
      · rw [← object_describe_ne m i e s j hij] at ho
        -- Another object keeps its own string, which is still there.
        exact .cached j e' c t ho hw (getElem?_of_isPrefix _ _ hprefix _ _ ht)
  | plain j e' p t ho hw hc hp ht =>
      by_cases hij : i = j
      · subst hij
        rw [Describes.unique m i _ s (.plain i e' p t ho hw hc hp ht) hi]
        exact hself
      · rw [← object_describe_ne m i e s j hij] at ho
        exact .plain j e' p t ho hw hc (getElem?_of_isPrefix _ _ hprefix _ _ hp)
          (getElem?_of_isPrefix _ _ hprefix _ _ ht)
  | caused j e' k p t w ho hw hc hp ht hk ih =>
      by_cases hij : i = j
      · subst hij
        rw [Describes.unique m i _ s (.caused i e' k p t w ho hw hc hp ht hk) hi]
        exact hself
      · rw [← object_describe_ne m i e s j hij] at ho
        -- The object may be the cause of this one, but it says the same as
        -- before.
        exact .caused j e' k p t w ho hw hc (getElem?_of_isPrefix _ _ hprefix _ _ hp)
          (getElem?_of_isPrefix _ _ hprefix _ _ ht) ih

end Describe

/-! ### Asking for a description -/

/-- A pointer can be followed where there is a string. -/
theorem deref_ok_iff (m : Memory) (c : Nat) (s : Str) :
    m.deref c = .ok s ↔ m.strings[c]? = some s := by
  unfold Memory.deref
  cases m.strings[c]? with
  | none => simp only [reduceCtorEq]
  | some t => simp only [Except.ok.injEq, Option.some.injEq]

/-- What a request for the description of an object returns and leaves. -/
structure Served (m : Memory) (i : Nat) (m' : Memory) (c : Nat) : Prop where
  /-- The pointer leads to what the exception said. -/
  text : ∃ s, Describes m i s ∧ m'.strings[c]? = some s
  /-- The object keeps that pointer. -/
  kept : ∃ e : Shared, m'.objects[i]? = some (.nsException e) ∧ e.what = some c
  /-- Nobody says anything else than before. -/
  describes : ∀ j s, Describes m j s → Describes m' j s
  /-- A description that was kept before is kept as it was. -/
  cached : ∀ (j : Nat) (e : Shared) (d : Nat), m.objects[j]? = some (.nsException e) →
    e.what = some d → m'.objects[j]? = some (.nsException e)
  strings : m.strings <+: m'.strings
  objects : m'.objects.length = m.objects.length
  rooted : Rooted m'

/-- A description is made for the object after its cause has been asked. -/
theorem served_describe (m m' : Memory) (i : Nat) (e : Shared) (s : Str)
    (ho : m.objects[i]? = some (.nsException e)) (hw : e.what = none) (hi : Describes m i s)
    (hm : Rooted m) (hdescribes : ∀ j t, Describes m j t → Describes m' j t)
    (hcached : ∀ (j : Nat) (e : Shared) (d : Nat), m.objects[j]? = some (.nsException e) →
      e.what = some d → m'.objects[j]? = some (.nsException e))
    (hstrings : m.strings <+: m'.strings) (hobjects : m'.objects.length = m.objects.length)
    (hm' : Rooted m') : Served m i (m'.describe i e s).1 (m'.describe i e s).2 := by
  have hlt : i < m'.objects.length := by
    rw [hobjects]
    exact (List.getElem?_eq_some_iff.mp ho).1
  refine ⟨⟨s, hi, string_describe_new m' i e s⟩, ⟨_, object_describe_self m' i e s hlt, rfl⟩,
    ?_, ?_, hstrings.trans (strings_describe m' i e s), ?_,
    rooted_describe m' hm' i e m.strings.length (hm i _ ho) hstrings.length_le s⟩
  · intro j t hj
    exact describes_describe m' i e s (hdescribes i s hi) j t (hdescribes j t hj)
  · intro j e' d hj hd
    -- The object had no description yet.
    have hij : i ≠ j := by
      rintro rfl
      rw [ho, Option.some.injEq, SharedObject.nsException.injEq] at hj
      rw [← hj, hw] at hd
      simp only [reduceCtorEq] at hd
    rw [object_describe_ne m' i e s j hij]
    exact hcached j e' d hj hd
  · simp only [Memory.describe, List.length_set, hobjects]

/-- What `whatstr` returns and leaves, where it returns. -/
theorem sharedWhatstr_spec (fuel : Nat) (m : Memory) (i : Nat) (m' : Memory) (c : Nat)
    (hm : Rooted m) (h : sharedWhatstr fuel m i = .ok (m', c)) : Served m i m' c := by
  induction fuel generalizing i m' c with
  | zero => simp only [sharedWhatstr, reduceCtorEq] at h
  | succ fuel ih =>
      rw [sharedWhatstr] at h
      split at h
      case h_1 e ho =>
        split at h
        case h_1 d hw =>
          simp only [Except.ok.injEq, Prod.mk.injEq] at h
          rcases h with ⟨rfl, rfl⟩
          -- It has been asked before.
          have hd := (hm i _ ho).2.2.2 d hw
          exact ⟨⟨m.strings[d], .cached i e d _ ho hw (List.getElem?_eq_getElem hd),
              List.getElem?_eq_getElem hd⟩, ⟨e, ho, hw⟩, fun _ _ h => h, fun _ _ _ h _ => h,
            List.prefix_refl _, rfl, hm⟩
        case h_2 hw =>
          split at h
          case h_1 hc =>
            split at h
            case h_1 p t hp ht =>
              simp only [Except.ok.injEq] at h
              rw [deref_ok_iff] at hp ht
              have hserved := served_describe m m i e _ ho hw
                (.plain i e p t ho hw hc hp ht) hm (fun _ _ h => h) (fun _ _ _ h _ => h)
                (List.prefix_refl _) rfl hm
              rw [h] at hserved
              exact hserved
            case h_2 => simp only [reduceCtorEq] at h
            case h_3 => simp only [reduceCtorEq] at h
          case h_2 j hc =>
            split at h
            case h_1 => simp only [reduceCtorEq] at h
            case h_2 m₁ d hj =>
              -- The cause is asked first, and keeps its own description.
              have hcause := ih j m₁ d hj
              rcases hcause.text with ⟨w, hw', hd⟩
              split at h
              case h_1 w' p t hd' hp ht =>
                simp only [Except.ok.injEq] at h
                rw [deref_ok_iff] at hd' hp ht
                rw [hd, Option.some.injEq] at hd'
                subst hd'
                -- The strings of the exception were there before its cause was asked.
                have hplaced := hm i _ ho
                have hp' := List.getElem?_eq_getElem hplaced.2.2.1
                have ht' := List.getElem?_eq_getElem hplaced.2.1
                rw [getElem?_of_isPrefix _ _ hcause.strings _ _ hp', Option.some.injEq] at hp
                rw [getElem?_of_isPrefix _ _ hcause.strings _ _ ht', Option.some.injEq] at ht
                rw [hp] at hp'
                rw [ht] at ht'
                have hserved := served_describe m m₁ i e _ ho hw
                  (.caused i e j p t w ho hw hc hp' ht' hw') hm hcause.describes hcause.cached
                  hcause.strings hcause.objects hcause.rooted
                rw [h] at hserved
                exact hserved
              case h_2 => simp only [reduceCtorEq] at h
              case h_3 => simp only [reduceCtorEq] at h
              case h_4 => simp only [reduceCtorEq] at h
      case h_2 => simp only [reduceCtorEq] at h

/-- An exception that says something can be asked: a cause comes before what it
    causes, so the chain ends within the number of objects. -/
theorem sharedWhatstr_total (m : Memory) (hm : Rooted m) (i : Nat) (s : Str)
    (h : Describes m i s) (fuel : Nat) (hfuel : i < fuel) :
    ∃ m' c, sharedWhatstr fuel m i = .ok (m', c) := by
  induction h generalizing fuel with
  | cached i e c s ho hw hs =>
      obtain ⟨fuel, rfl⟩ := Nat.exists_eq_add_one_of_ne_zero (by omega : fuel ≠ 0)
      exact ⟨m, c, by simp only [sharedWhatstr, ho, hw]⟩
  | plain i e p t ho hw hc hp ht =>
      obtain ⟨fuel, rfl⟩ := Nat.exists_eq_add_one_of_ne_zero (by omega : fuel ≠ 0)
      rw [← deref_ok_iff] at hp ht
      refine ⟨(m.describe i e (headlineText p t)).1, (m.describe i e (headlineText p t)).2, ?_⟩
      simp only [sharedWhatstr, ho, hw, hc, hp, ht]
  | caused i e j p t w ho hw hc hp ht hj ih =>
      obtain ⟨fuel, rfl⟩ := Nat.exists_eq_add_one_of_ne_zero (by omega : fuel ≠ 0)
      -- The cause comes before the exception, so less fuel is enough for it.
      have hji := (hm i _ ho).1 j hc
      rcases ih fuel (by omega) with ⟨m₁, d, hcause⟩
      have hserved := sharedWhatstr_spec fuel m j m₁ d hm hcause
      rcases hserved.text with ⟨w', -, hd⟩
      have hp' := getElem?_of_isPrefix _ _ hserved.strings _ _ hp
      have ht' := getElem?_of_isPrefix _ _ hserved.strings _ _ ht
      rw [← deref_ok_iff] at hd hp' ht'
      refine ⟨(m₁.describe i e (causedText p t w')).1, (m₁.describe i e (causedText p t w')).2, ?_⟩
      simp only [sharedWhatstr, ho, hw, hc, hcause, hd, hp', ht']

/-! ### Steps and runs -/

/-- What an operation does to the memory: it puts something behind what is
    there, it asks for a description, or it writes a string that is there. -/
inductive Effect (m : Memory) : SharedOp → Memory → SharedAnswer → Prop
  | grows (op : SharedOp) (m' : Memory) (a : SharedAnswer) (hobjects : m.objects <+: m'.objects)
      (hstrings : m.strings <+: m'.strings) (hrooted : Rooted m → Rooted m')
      (hwhatstr : ∀ i, op ≠ .whatstr i) (hwhat : ∀ i, op ≠ .what i) : Effect m op m' a
  | whatstr (i : Nat) (m' : Memory) (c : Nat)
      (h : sharedWhatstr m.objects.length m i = .ok (m', c)) : Effect m (.whatstr i) m' (.cell c)
  | what (i : Nat) (m' : Memory) (c : Nat) (s : Str)
      (h : sharedWhatstr m.objects.length m i = .ok (m', c)) (hs : m'.strings[c]? = some s) :
      Effect m (.what i) m' (.text (cString s))
  | write (c : Nat) (s : Str) (hc : c < m.strings.length) :
      Effect m (.write c s) ⟨m.strings.set c s, m.objects⟩ .done

/-- The constructor only adds to the memory. -/
theorem construct_grows (m : Memory) (cause : Option Nat) (message position : Nat) (m' : Memory)
    (i : Nat) (h : m.construct cause message position = .ok (m', i)) :
    m.objects <+: m'.objects ∧ m.strings <+: m'.strings := by
  unfold Memory.construct at h
  split at h
  case isTrue =>
    simp only [Except.ok.injEq, Prod.mk.injEq] at h
    rcases h with ⟨rfl, -⟩
    exact ⟨List.prefix_append _ _, List.prefix_refl _⟩
  case isFalse => simp only [reduceCtorEq] at h

/-- Each operation does what `Effect` says of it. From here on no operation is
    unfolded any more. -/
theorem sharedStep_effect (m : Memory) (op : SharedOp) (m' : Memory) (a : SharedAnswer)
    (h : sharedStep m op = .ok (m', a)) : Effect m op m' a := by
  -- What only reads leaves the memory as it is.
  have hsame : ∀ op a, (∀ i, op ≠ SharedOp.whatstr i) → (∀ i, op ≠ SharedOp.what i) →
      Effect m op m a := fun op a =>
    .grows op m a (List.prefix_refl _) (List.prefix_refl _) id
  cases op with
  | makeString s =>
      simp only [sharedStep, Except.ok.injEq, Prod.mk.injEq] at h
      rcases h with ⟨rfl, rfl⟩
      refine .grows _ _ _ (List.prefix_refl _) (List.prefix_append _ _) ?_ nofun nofun
      exact fun hm => rooted_makeString m hm s
  | newMessage message position =>
      simp only [sharedStep] at h
      split at h
      case h_1 => simp only [reduceCtorEq] at h
      case h_2 =>
        split at h
        case h_1 => simp only [reduceCtorEq] at h
        case h_2 m₁ i hm₁ =>
          simp only [Except.ok.injEq, Prod.mk.injEq] at h
          rcases h with ⟨rfl, rfl⟩
          rcases construct_grows _ _ _ _ _ _ hm₁ with ⟨hobjects, hstrings⟩
          refine .grows _ _ _ hobjects ((List.prefix_append _ _).trans hstrings) ?_ nofun nofun
          exact fun hm => rooted_construct _ (rooted_makeString m hm _) _ _ _ _ _ hm₁
  | newByReference cause message position =>
      simp only [sharedStep] at h
      split at h
      case h_1 => simp only [reduceCtorEq] at h
      case h_2 =>
        split at h
        case h_1 => simp only [reduceCtorEq] at h
        case h_2 m₁ i hm₁ =>
          simp only [Except.ok.injEq, Prod.mk.injEq] at h
          rcases h with ⟨rfl, rfl⟩
          rcases construct_grows _ _ _ _ _ _ hm₁ with ⟨hobjects, hstrings⟩
          refine .grows _ _ _ ((List.prefix_append _ _).trans hobjects) hstrings ?_ nofun nofun
          exact fun hm => rooted_construct _ (rooted_makeObject m hm .foreign trivial) _ _ _ _ _ hm₁
  | newCaused cause message position =>
      simp only [sharedStep] at h
      split at h
      case h_1 => simp only [reduceCtorEq] at h
      case h_2 m₁ i hm₁ =>
        simp only [Except.ok.injEq, Prod.mk.injEq] at h
        rcases h with ⟨rfl, rfl⟩
        rcases construct_grows _ _ _ _ _ _ hm₁ with ⟨hobjects, hstrings⟩
        exact .grows _ _ _ hobjects hstrings (fun hm => rooted_construct m hm _ _ _ _ _ hm₁)
          nofun nofun
  | newForeign =>
      simp only [sharedStep, Except.ok.injEq, Prod.mk.injEq] at h
      rcases h with ⟨rfl, rfl⟩
      refine .grows _ _ _ (List.prefix_append _ _) (List.prefix_refl _) ?_ nofun nofun
      exact fun hm => rooted_makeObject m hm .foreign trivial
  -- A copy has the pointers of the original, also the one to its description.
  | copy i =>
      simp only [sharedStep] at h
      split at h
      case h_1 => simp only [reduceCtorEq] at h
      case h_2 o ho =>
        simp only [Except.ok.injEq, Prod.mk.injEq] at h
        rcases h with ⟨rfl, rfl⟩
        refine .grows _ _ _ (List.prefix_append _ _) (List.prefix_refl _) ?_ nofun nofun
        intro hm
        have hi := (List.getElem?_eq_some_iff.mp ho).1
        exact rooted_makeObject m hm o ((hm i o ho).mono _ _ _ _ _ hi.le (le_refl _))
  | cause i | message i | position i | read c =>
      simp only [sharedStep] at h
      split at h
      case h_1 => simp only [reduceCtorEq] at h
      case h_2 =>
        simp only [Except.ok.injEq, Prod.mk.injEq] at h
        rcases h with ⟨rfl, rfl⟩
        exact hsame _ _ nofun nofun
  | whatstr i =>
      simp only [sharedStep] at h
      split at h
      case h_1 => simp only [reduceCtorEq] at h
      case h_2 m₁ c hc =>
        simp only [Except.ok.injEq, Prod.mk.injEq] at h
        rcases h with ⟨rfl, rfl⟩
        exact .whatstr i _ c hc
  | what i =>
      simp only [sharedStep] at h
      split at h
      case h_1 => simp only [reduceCtorEq] at h
      case h_2 m₁ c hc =>
        split at h
        case h_1 => simp only [reduceCtorEq] at h
        case h_2 s hs =>
          simp only [Except.ok.injEq, Prod.mk.injEq] at h
          rcases h with ⟨rfl, rfl⟩
          exact .what i _ c s hc ((deref_ok_iff _ _ _).mp hs)
  | write c s =>
      simp only [sharedStep] at h
      split at h
      case h_1 => simp only [reduceCtorEq] at h
      case h_2 t ht =>
        simp only [Except.ok.injEq, Prod.mk.injEq] at h
        rcases h with ⟨rfl, rfl⟩
        rw [deref_ok_iff] at ht
        exact .write c s (List.getElem?_eq_some_iff.mp ht).1

/-- No operation makes a pointer that leads nowhere. -/
theorem Effect.rooted (m : Memory) (op : SharedOp) (m' : Memory) (a : SharedAnswer)
    (h : Effect m op m' a) (hm : Rooted m) : Rooted m' := by
  cases h with
  | grows _ _ _ _ _ hrooted => exact hrooted hm
  | whatstr i _ c h => exact (sharedWhatstr_spec _ m i m' c hm h).rooted
  | what i _ c s h hs => exact (sharedWhatstr_spec _ m i m' c hm h).rooted
  | write c s hc =>
      intro i o ho
      rw [List.length_set]
      exact hm i o ho

/-- Only a write to its footprint changes what an exception says. -/
theorem Effect.describes (m : Memory) (op : SharedOp) (m' : Memory) (a : SharedAnswer)
    (h : Effect m op m' a) (hm : Rooted m) (i : Nat) (s : Str) (hs : Describes m i s)
    (hspared : ∀ c t, op = .write c t → ¬ Footprint m i c) : Describes m' i s := by
  cases h with
  | grows _ _ _ hobjects hstrings => exact hs.grows m m' i s hobjects hstrings
  | whatstr j _ c h => exact (sharedWhatstr_spec _ m j m' c hm h).describes i s hs
  | what j _ c t h ht => exact (sharedWhatstr_spec _ m j m' c hm h).describes i s hs
  | write c t hc =>
      -- The string that is written is none of those the text is made from.
      refine hs.frame m _ i s (fun _ _ ho => ho) ?_
      intro d r hd hr
      have hne : c ≠ d := by
        rintro rfl
        exact hspared c t rfl hd
      rw [List.getElem?_set_ne hne, hr]

/-- What a program can reach has no pointer that leads nowhere. -/
theorem run_rooted (ops : List SharedOp) (m : Memory) (as : List SharedAnswer)
    (h : Machine.run sharedStep ⟨[], []⟩ ops = .ok (m, as)) : Rooted m :=
  Machine.run_invariant sharedStep Rooted
    (fun m op m' a hm hstep => (sharedStep_effect m op m' a hstep).rooted m op m' a hm)
    ops _ rooted_nil m as h

/-- No operation of a run writes a string that the description of an exception
    is made from at the time. -/
def Spares (i : Nat) : Memory → List SharedOp → Prop
  | _, [] => True
  | m, op :: ops => (∀ c s, op = .write c s → ¬ Footprint m i c) ∧
      ∀ m' a, sharedStep m op = .ok (m', a) → Spares i m' ops

/-- A whole run keeps what an exception says, if no operation in it writes to
    the footprint of the time. -/
theorem run_describes (ops : List SharedOp) (m : Memory) (hm : Rooted m) (m' : Memory)
    (as : List SharedAnswer) (h : Machine.run sharedStep m ops = .ok (m', as)) (i : Nat) (s : Str)
    (hs : Describes m i s) (hspares : Spares i m ops) : Describes m' i s := by
  induction ops generalizing m as with
  | nil =>
      simp only [Machine.run, Except.ok.injEq, Prod.mk.injEq] at h
      rcases h with ⟨rfl, rfl⟩
      exact hs
  | cons op ops ih =>
      rcases Machine.run_cons_ok sharedStep m op ops m' as h with ⟨m₁, a, as', hstep, hrest, -⟩
      have heffect := sharedStep_effect m op m₁ a hstep
      exact ih m₁ (heffect.rooted m op m₁ a hm) as' hrest
        (heffect.describes m op m₁ a hm i s hs hspares.1) (hspares.2 m₁ a hstep)

/-- Whatever a program does between two requests for the description of an
    exception, it gets the same text, unless it writes one of the strings that
    the description is made from. -/
theorem description_unchanged (before after : List SharedOp) (m m' : Memory)
    (as bs : List SharedAnswer) (hbefore : Machine.run sharedStep ⟨[], []⟩ before = .ok (m, as))
    (hafter : Machine.run sharedStep m after = .ok (m', bs)) (i : Nat)
    (hspares : Spares i m after) (m₁ : Memory) (c₁ : Nat) (s : Str)
    (hfirst : sharedWhatstr m.objects.length m i = .ok (m₁, c₁))
    (hs : m₁.strings[c₁]? = some s) :
    ∃ m₂ c₂, sharedWhatstr m'.objects.length m' i = .ok (m₂, c₂) ∧ m₂.strings[c₂]? = some s := by
  have hm := run_rooted before m as hbefore
  rcases (sharedWhatstr_spec _ m i m₁ c₁ hm hfirst).text with ⟨t, ht, hc⟩
  rw [hs, Option.some.injEq] at hc
  subst hc
  -- At the end it still says what it was first asked for, and can be asked.
  have hlast := run_describes after m hm m' bs hafter i s ht hspares
  have hm' := Machine.run_invariant sharedStep Rooted
    (fun m op m' a hm hstep => (sharedStep_effect m op m' a hstep).rooted m op m' a hm)
    after m hm m' bs hafter
  have hlt := hlast.lt_length m' i s
  rcases sharedWhatstr_total m' hm' i s hlast m'.objects.length hlt with ⟨m₂, c₂, hsecond⟩
  rcases (sharedWhatstr_spec _ m' i m₂ c₂ hm' hsecond).text with ⟨t, ht, hc⟩
  rw [Describes.unique m' i s t hlast ht]
  exact ⟨m₂, c₂, hsecond, hc⟩

/-- The position of an exception is overwritten after its description has been
    made. -/
theorem description_unchanged_position : ∃ m₂ c₂,
    sharedWhatstr 1 ⟨[str "r", str "m", str "Exception at q: m"],
      [.nsException ⟨none, 1, 0, some 2⟩]⟩ 0 = .ok (m₂, c₂) ∧
    m₂.strings[c₂]? = some (str "Exception at q: m") := by
  refine description_unchanged [.makeString (str "q"), .newMessage (str "m") 0, .whatstr 0]
    [.write 0 (str "r")] _ _ _ _ rfl rfl 0 ⟨?_, fun _ _ _ => trivial⟩ _ _ _ rfl rfl
  intro c s heq hfoot
  rw [SharedOp.write.injEq] at heq
  rcases heq with ⟨rfl, -⟩
  -- The description is kept in a string of its own.
  have hcell := hfoot.of_cached _ 0 ⟨none, 1, 0, some 2⟩ 2 rfl rfl 0
  omega

/-! ### The pointer that is handed out -/

/-- The object keeps this pointer to its description, and it leads to this
    text. -/
def Keeps (m : Memory) (i c : Nat) (s : Str) : Prop :=
  (∃ e : Shared, m.objects[i]? = some (.nsException e) ∧ e.what = some c) ∧ m.strings[c]? = some s

/-- An object that keeps its description gives it out, and does nothing else. -/
theorem Keeps.whatstr (m : Memory) (i c : Nat) (s : Str) (h : Keeps m i c s) :
    sharedWhatstr m.objects.length m i = .ok (m, c) := by
  rcases h with ⟨⟨e, ho, hw⟩, -⟩
  have hlt := (List.getElem?_eq_some_iff.mp ho).1
  obtain ⟨n, hn⟩ := Nat.exists_eq_add_one_of_ne_zero (by omega : m.objects.length ≠ 0)
  rw [hn]
  simp only [sharedWhatstr, ho, hw]

/-- Only a write through that pointer changes what is kept. -/
theorem Effect.keeps (m : Memory) (op : SharedOp) (m' : Memory) (a : SharedAnswer)
    (h : Effect m op m' a) (hm : Rooted m) (i c : Nat) (s : Str) (hk : Keeps m i c s)
    (hwrite : ∀ t, op ≠ .write c t) : Keeps m' i c s := by
  rcases hk with ⟨⟨e, ho, hw⟩, hs⟩
  cases h with
  | grows _ _ _ hobjects hstrings =>
      exact ⟨⟨e, getElem?_of_isPrefix _ _ hobjects _ _ ho, hw⟩,
        getElem?_of_isPrefix _ _ hstrings _ _ hs⟩
  | whatstr j _ d h =>
      -- Another exception may be asked, and this one itself again.
      have hserved := sharedWhatstr_spec _ m j m' d hm h
      exact ⟨⟨e, hserved.cached i e c ho hw, hw⟩, getElem?_of_isPrefix _ _ hserved.strings _ _ hs⟩
  | what j _ d t h ht =>
      have hserved := sharedWhatstr_spec _ m j m' d hm h
      exact ⟨⟨e, hserved.cached i e c ho hw, hw⟩, getElem?_of_isPrefix _ _ hserved.strings _ _ hs⟩
  | write d t hd =>
      have hne : d ≠ c := by
        rintro rfl
        exact hwrite t rfl
      exact ⟨⟨e, ho, hw⟩, by rw [List.getElem?_set_ne hne, hs]⟩

/-- The answers of a kept description. -/
theorem Effect.answer (m : Memory) (op : SharedOp) (m' : Memory) (a : SharedAnswer)
    (h : Effect m op m' a) (i c : Nat) (s : Str) (hk : Keeps m i c s) :
    (op = .whatstr i → a = .cell c) ∧ (op = .what i → a = .text (cString s)) := by
  have hsame := hk.whatstr m i c s
  constructor
  · rintro rfl
    cases h with
    | grows _ _ _ _ _ _ hne => exact absurd rfl (hne i)
    | whatstr _ _ d h =>
        -- The object already keeps its description, so it gives that pointer
        -- out.
        rw [hsame, Except.ok.injEq, Prod.mk.injEq] at h
        rw [h.2]
  · rintro rfl
    cases h with
    | grows _ _ _ _ _ _ _ hne => exact absurd rfl (hne i)
    | what _ _ d t h ht =>
        rw [hsame, Except.ok.injEq, Prod.mk.injEq] at h
        rcases h with ⟨rfl, rfl⟩
        rw [hk.2, Option.some.injEq] at ht
        rw [ht]

/-- In a run that does not write through it, the pointer is kept, and all
    requests are answered with it or with its text. -/
theorem run_keeps (ops : List SharedOp) (m : Memory) (hm : Rooted m) (m' : Memory)
    (as : List SharedAnswer) (h : Machine.run sharedStep m ops = .ok (m', as)) (i c : Nat) (s : Str)
    (hk : Keeps m i c s) (hwrite : ∀ t, SharedOp.write c t ∉ ops) :
    Keeps m' i c s ∧ ∀ k : Nat, (ops[k]? = some (.whatstr i) → as[k]? = some (.cell c)) ∧
      (ops[k]? = some (.what i) → as[k]? = some (.text (cString s))) := by
  induction ops generalizing m as with
  | nil =>
      simp only [Machine.run, Except.ok.injEq, Prod.mk.injEq] at h
      rcases h with ⟨rfl, rfl⟩
      refine ⟨hk, ?_⟩
      intro k
      simp only [List.getElem?_nil, reduceCtorEq, false_implies, and_self]
  | cons op ops ih =>
      rcases Machine.run_cons_ok sharedStep m op ops m' as h with ⟨m₁, a, as', hstep, hrest, rfl⟩
      have heffect := sharedStep_effect m op m₁ a hstep
      simp only [List.mem_cons, not_or] at hwrite
      -- After the first operation the pointer is kept as before.
      have hk₁ := heffect.keeps m op m₁ a hm i c s hk (fun t ht => (hwrite t).1 ht.symm)
      rcases ih m₁ (heffect.rooted m op m₁ a hm) as' hrest hk₁ (fun t => (hwrite t).2)
        with ⟨hlast, hanswers⟩
      refine ⟨hlast, ?_⟩
      intro k
      -- The first answer is that of the first operation, the others are those of
      -- the rest.
      cases k with
      | zero =>
          simp only [List.getElem?_cons_zero, Option.some.injEq]
          exact heffect.answer m op m₁ a i c s hk
      | succ k =>
          simp only [List.getElem?_cons_succ]
          exact hanswers k

/-- After the first request an exception has one pointer to its description
    and gives out no other; unless the string is written through it, the text
    stays what it was, whatever happens to the message, the position and the
    causes. -/
theorem whatstr_snapshot (before after : List SharedOp) (m m' : Memory)
    (as bs : List SharedAnswer) (hbefore : Machine.run sharedStep ⟨[], []⟩ before = .ok (m, as))
    (i c : Nat)
    (hafter : Machine.run sharedStep m (.whatstr i :: after) = .ok (m', .cell c :: bs))
    (hwrite : ∀ t, SharedOp.write c t ∉ after) :
    ∃ m₁ s, sharedWhatstr m.objects.length m i = .ok (m₁, c) ∧ m₁.strings[c]? = some s ∧
      m'.strings[c]? = some s ∧
      ∀ k : Nat, (after[k]? = some (.whatstr i) → bs[k]? = some (.cell c)) ∧
        (after[k]? = some (.what i) → bs[k]? = some (.text (cString s))) := by
  have hm := run_rooted before m as hbefore
  rcases Machine.run_cons_ok sharedStep m _ after m' _ hafter with ⟨m₁, a, as', hstep, hrest, heq⟩
  rw [List.cons.injEq] at heq
  rcases heq with ⟨rfl, rfl⟩
  have heffect := sharedStep_effect m _ m₁ _ hstep
  -- The first operation is the request that makes the description.
  cases heffect with
  | grows _ _ _ _ _ _ hne => exact absurd rfl (hne i)
  | whatstr _ _ _ h =>
      have hserved := sharedWhatstr_spec _ m i m₁ c hm h
      rcases hserved.text with ⟨s, -, hs⟩
      rcases run_keeps after m₁ hserved.rooted m' bs hrest i c s ⟨hserved.kept, hs⟩ hwrite
        with ⟨⟨-, hs'⟩, hanswers⟩
      exact ⟨m₁, s, h, hs, hs', hanswers⟩

/-- The message of an exception is overwritten after its first description. -/
theorem whatstr_snapshot_message : ∃ m₁ s,
    sharedWhatstr 1 ⟨[str "q", str "m"], [.nsException ⟨none, 1, 0, none⟩]⟩ 0 = .ok (m₁, 2) ∧
      m₁.strings[2]? = some s ∧ some (str "Exception at q: m") = some s ∧
      ∀ k : Nat, ([SharedOp.write 1 (str "n"), .whatstr 0][k]? = some (.whatstr 0) →
          [SharedAnswer.done, .cell 2][k]? = some (.cell 2)) ∧
        ([SharedOp.write 1 (str "n"), .whatstr 0][k]? = some (.what 0) →
          [SharedAnswer.done, .cell 2][k]? = some (.text (cString s))) :=
  whatstr_snapshot [.makeString (str "q"), .newMessage (str "m") 0]
    [.write 1 (str "n"), .whatstr 0] _ _ _ _ rfl 0 2 rfl (by
      intro t
      simp only [List.mem_cons, SharedOp.write.injEq, Nat.reduceEqDiff, false_and, reduceCtorEq,
        List.not_mem_nil, or_self, not_false_eq_true])

end Exception

end Nanoservices
