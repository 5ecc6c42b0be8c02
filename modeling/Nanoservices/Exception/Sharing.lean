import Nanoservices.Exception.Aliasing

/-!
# Sharing That Does Not Show

The value model keeps the strings in the exceptions, and copies them along
with the exceptions; the implementation keeps pointers, and shares the strings.
As long as nobody writes through a pointer the two cannot be told apart:
`values` reads every pointer, and it takes a run of the implementation to a run
of the value model with the same answers.

What is proved of the value model, that an exception says what it was
constructed from and goes on saying it, is in this way proved of shared
strings.

## Main definitions

* `Memory.text`: The string behind a pointer.
* `values`: The objects with their strings.
* `heapOps`, `heapAnswers`: An operation and its answer in the value model.
* `heapRun`: A run in the value model.

## Theorems

* `values_whatstr`: Descriptions of shared strings and of values.
* `values_step`: One operation in both.
* `sharing_invisible`: A run without writes in both.
-/

namespace Nanoservices

namespace Exception

/-- The string behind a pointer. -/
def Memory.text (m : Memory) (c : Nat) : Str := m.strings.getD c []

/-- An object with its strings in place of the pointers. What an exception of
    another class says is not kept. -/
def value (m : Memory) : SharedObject → Object
  | .foreign => .foreign []
  | .nsException e =>
    .nsException ⟨e.cause, m.text e.message, m.text e.position, e.what.map m.text⟩

/-- The objects with their strings. -/
def values (m : Memory) : Heap := m.objects.map (value m)

/-- What an operation is in the value model. Pointers are nothing there. -/
def heapOps (m : Memory) : SharedOp → List Op
  | .newMessage message position => [.newMessage message (m.text position)]
  | .newByReference _ message position =>
    [.newForeign [], .newCaused (some m.objects.length) (m.text message) (m.text position)]
  | .newCaused cause message position => [.newCaused cause (m.text message) (m.text position)]
  | .newForeign => [.newForeign []]
  | .copy i => [.copy i]
  | .whatstr i => [.whatstr i]
  | .what i => [.what i]
  | .makeString _ | .cause _ | .message _ | .position _ | .read _ | .write _ _ => []

/-- What its answer is there, in the memory that it leaves. -/
def heapAnswers (m' : Memory) : SharedOp → SharedAnswer → List Answer
  | .newMessage _ _, .object (some i) => [.created i]
  | .newByReference _ _ _, .object (some i) => [.created (i - 1), .created i]
  | .newCaused _ _ _, .object (some i) => [.created i]
  | .newForeign, .object (some i) => [.created i]
  | .copy _, .object (some i) => [.created i]
  | .whatstr _, .cell c => [.text (m'.text c)]
  | .what _, .text s => [.text s]
  | _, _ => []

/-- The operations of a run and their answers. -/
def heapRun : Memory → List SharedOp → List Op × List Answer
  | _, [] => ([], [])
  | m, op :: ops => match sharedStep m op with
    | .error _ => ([], [])
    | .ok (m', a) =>
      (heapOps m op ++ (heapRun m' ops).1, heapAnswers m' op a ++ (heapRun m' ops).2)

/-! ### Reading the pointers -/

/-- The text of a pointer is the string that it leads to. -/
theorem text_eq_of_getElem? (m : Memory) (c : Nat) (s : Str) (h : m.strings[c]? = some s) :
    m.text c = s := by
  rw [Memory.text, List.getD_eq_getElem?_getD, h, Option.getD_some]

/-- A pointer into the memory can be followed. -/
theorem deref_text (m : Memory) (c : Nat) (hc : c < m.strings.length) :
    m.deref c = .ok (m.text c) := by
  have hm := List.getElem?_eq_getElem hc
  rw [deref_ok_iff, text_eq_of_getElem? m c _ hm, hm]

/-- New strings leave the texts of the old ones alone. -/
theorem text_of_isPrefix (m m' : Memory) (h : m.strings <+: m'.strings) (c : Nat)
    (hc : c < m.strings.length) : m'.text c = m.text c := by
  have hm := List.getElem?_eq_getElem hc
  rw [text_eq_of_getElem? m c _ hm]
  exact text_eq_of_getElem? m' c _ (getElem?_of_isPrefix _ _ h _ _ hm)

/-- New strings change no object. -/
theorem value_of_isPrefix (m m' : Memory) (h : m.strings <+: m'.strings) (n : Nat)
    (o : SharedObject) (ho : Placed n m.strings.length o) : value m' o = value m o := by
  cases o with
  | foreign => rfl
  | nsException e =>
      rcases ho with ⟨-, hmessage, hposition, hwhat⟩
      have hkept : e.what.map m'.text = e.what.map m.text := by
        cases hw : e.what with
        | none => rfl
        | some c => rw [Option.map_some, Option.map_some, text_of_isPrefix m m' h c (hwhat c hw)]
      simp only [value, text_of_isPrefix m m' h _ hmessage, text_of_isPrefix m m' h _ hposition,
        hkept]

/-- So objects have the same values when only strings have been added. -/
theorem values_of_isPrefix (m m' : Memory) (hm : Rooted m) (h : m.strings <+: m'.strings)
    (hobjects : m'.objects = m.objects) : values m' = values m := by
  rw [values, values, hobjects]
  refine List.map_congr_left ?_
  intro o ho
  rcases List.mem_iff_getElem?.mp ho with ⟨i, hi⟩
  exact value_of_isPrefix m m' h i o (hm i o hi)

/-- The value of an object is found where the object is. -/
theorem values_getElem? (m : Memory) (i : Nat) : (values m)[i]? = m.objects[i]?.map (value m) := by
  rw [values, List.getElem?_map]

/-- There are as many values as objects. -/
theorem length_values (m : Memory) : (values m).length = m.objects.length := by
  rw [values, List.length_map]

/-- A new string is the value of no object. -/
theorem values_makeString (m : Memory) (hm : Rooted m) (s : Str) :
    values (m.makeString s) = values m :=
  values_of_isPrefix m _ hm (List.prefix_append _ _) rfl

/-- A new object is a new value, behind the others. -/
theorem values_makeObject (m : Memory) (o : SharedObject) :
    values (m.makeObject o) = values m ++ [value m o] := by
  rw [values, Memory.makeObject, List.map_append]
  rfl

/-- The cache of an object is filled in both. -/
theorem values_describe (m : Memory) (hm : Rooted m) (i : Nat) (e : Shared)
    (he : Placed i m.strings.length (.nsException e)) (s : Str) :
    values (m.describe i e s).1 = (values m).set i
      (.nsException ⟨e.cause, m.text e.message, m.text e.position, some s⟩) := by
  have hprefix := strings_describe m i e s
  have hothers : m.objects.map (value (m.describe i e s).1) = values m :=
    values_of_isPrefix m ⟨m.strings ++ [s], m.objects⟩ hm hprefix rfl
  -- The new string is the text of the cache, and message and position have their old
  -- texts.
  have hself : value (m.describe i e s).1 (.nsException { e with what := some m.strings.length }) =
      .nsException ⟨e.cause, m.text e.message, m.text e.position, some s⟩ := by
    simp only [value, Option.map_some, text_of_isPrefix m _ hprefix _ he.2.1,
      text_of_isPrefix m _ hprefix _ he.2.2.1,
      text_eq_of_getElem? _ _ _ (string_describe_new m i e s)]
  calc values (m.describe i e s).1
      = (m.objects.map (value (m.describe i e s).1)).set i (value (m.describe i e s).1
          (.nsException { e with what := some m.strings.length })) := List.map_set
    _ = _ := by rw [hothers, hself]

/-! ### Descriptions -/

/-- The text of a pointer that a request returns, and the objects it leaves. -/
def readReply : Except Undefined (Memory × Nat) → Except Undefined (Heap × Str)
  | .error u => .error u
  | .ok (m', c) => .ok (values m', m'.text c)

/-- The reply to a request is the value model's: its text, and its objects. -/
theorem readReply_describe (m : Memory) (hm : Rooted m) (i : Nat) (e : Shared)
    (he : Placed i m.strings.length (.nsException e)) (s : Str) :
    readReply (.ok (m.describe i e s)) = .ok ((values m).set i
      (.nsException ⟨e.cause, m.text e.message, m.text e.position, some s⟩), s) := by
  rw [← values_describe m hm i e he s]
  have hnew := text_eq_of_getElem? _ _ _ (string_describe_new m i e s)
  rw [Memory.describe, readReply] at *
  rw [hnew]

/-- A request for a description does in the memory what it does with the
    values: it fails where that fails, and it returns and leaves what that
    does. -/
theorem values_whatstr (fuel : Nat) (m : Memory) (hm : Rooted m) (i : Nat) :
    whatstr fuel (values m) i = readReply (sharedWhatstr fuel m i) := by
  induction fuel generalizing i with
  | zero => rfl
  | succ fuel ih =>
      rw [whatstr, sharedWhatstr, values_getElem?]
      cases ho : m.objects[i]? with
      | none => rfl
      | some o =>
          have hplaced := hm i o ho
          cases o with
          | foreign => rfl
          | nsException e =>
              simp only [Option.map_some, value]
              cases hw : e.what with
              | some c => rfl
              | none =>
                  simp only [Option.map_none]
                  cases hc : e.cause with
                  | none =>
                      simp only [deref_text m _ hplaced.2.2.1, deref_text m _ hplaced.2.1,
                        readReply_describe m hm i e hplaced, hc]
                      rfl
                  | some j =>
                      simp only [ih j]
                      cases hj : sharedWhatstr fuel m j with
                      | error u => rfl
                      | ok p =>
                          rcases p with ⟨m₁, d⟩
                          -- The cause has kept its description behind the strings there were.
                          have hserved := sharedWhatstr_spec fuel m j m₁ d hm hj
                          have hprefix := hserved.strings
                          have hplaced₁ := hplaced.mono _ _ _ _ _ (le_refl i) hprefix.length_le
                          rcases hserved.text with ⟨w, -, hd⟩
                          have hd' := (List.getElem?_eq_some_iff.mp hd).1
                          simp only [readReply, deref_text m₁ _ hd',
                            deref_text m₁ _ hplaced₁.2.2.1, deref_text m₁ _ hplaced₁.2.1]
                          rw [← readReply, readReply_describe m₁ hserved.rooted i e hplaced₁, hc,
                            text_of_isPrefix m m₁ hprefix _ hplaced.2.1,
                            text_of_isPrefix m m₁ hprefix _ hplaced.2.2.1]
                          rfl

/-! ### Steps and runs -/

/-- The constructors make the same object in both. -/
theorem values_construct (m : Memory) (cause : Option Nat) (message position : Nat) (m' : Memory)
    (i : Nat) (h : m.construct cause message position = .ok (m', i)) :
    i = m.objects.length ∧ m.strings = m'.strings ∧
      values m' = values m ++ [.nsException ⟨cause, m.text message, m.text position, none⟩] := by
  unfold Memory.construct at h
  split at h
  case isTrue =>
    simp only [Except.ok.injEq, Prod.mk.injEq] at h
    rcases h with ⟨rfl, rfl⟩
    exact ⟨rfl, rfl, values_makeObject m _⟩
  case isFalse => simp only [reduceCtorEq] at h

/-- An operation that writes nothing does in the value model what it does in
    the memory, and gets the same answer. -/
theorem values_step (m : Memory) (hm : Rooted m) (op : SharedOp)
    (hwrite : ∀ c s, op ≠ .write c s) (m' : Memory) (a : SharedAnswer)
    (h : sharedStep m op = .ok (m', a)) :
    Machine.run step (values m) (heapOps m op) = .ok (values m', heapAnswers m' op a) := by
  have hlength := length_values m
  cases op with
  | makeString s =>
      simp only [sharedStep, Except.ok.injEq, Prod.mk.injEq] at h
      rcases h with ⟨rfl, rfl⟩
      rw [values_makeString m hm s]
      rfl
  | newMessage message position =>
      simp only [sharedStep] at h
      split at h
      case h_1 => simp only [reduceCtorEq] at h
      case h_2 t ht =>
        split at h
        case h_1 => simp only [reduceCtorEq] at h
        case h_2 m₁ i hm₁ =>
          simp only [Except.ok.injEq, Prod.mk.injEq] at h
          rcases h with ⟨rfl, rfl⟩
          rcases values_construct _ _ _ _ _ _ hm₁ with ⟨rfl, -, hvalues⟩
          rw [deref_ok_iff] at ht
          have hposition := (List.getElem?_eq_some_iff.mp ht).1
          have hprefix := List.prefix_append m.strings [cString message]
          have hp := text_of_isPrefix m (m.makeString (cString message)) hprefix position hposition
          -- The message is the last string.
          have hmessage :
              (m.makeString (cString message)).text m.strings.length = cString message :=
            text_eq_of_getElem? _ _ _ List.getElem?_concat_length
          rw [hvalues, values_makeString m hm, hp, hmessage]
          simp only [heapOps, heapAnswers, Machine.run, step, create, hlength]
          rfl
  | newByReference cause message position =>
      simp only [sharedStep] at h
      split at h
      case h_1 => simp only [reduceCtorEq] at h
      case h_2 =>
        split at h
        case h_1 => simp only [reduceCtorEq] at h
        case h_2 m₁ i hm₁ =>
          simp only [Except.ok.injEq, Prod.mk.injEq] at h
          rcases h with ⟨rfl, rfl⟩
          rcases values_construct _ _ _ _ _ _ hm₁ with ⟨rfl, -, hvalues⟩
          -- The copy of the cause takes an index, so two operations are needed there.
          have hobject : (m.makeObject .foreign).objects.length = m.objects.length + 1 :=
            List.length_append
          rw [hvalues, values_makeObject, hobject]
          simp only [heapOps, heapAnswers, Machine.run, step, create, hlength, List.length_append,
            List.length_singleton, Nat.add_sub_cancel]
          rfl
  | newCaused cause message position =>
      simp only [sharedStep] at h
      split at h
      case h_1 => simp only [reduceCtorEq] at h
      case h_2 m₁ i hm₁ =>
        simp only [Except.ok.injEq, Prod.mk.injEq] at h
        rcases h with ⟨rfl, rfl⟩
        rcases values_construct _ _ _ _ _ _ hm₁ with ⟨rfl, -, hvalues⟩
        simp only [heapOps, heapAnswers, Machine.run, step, create, hlength, hvalues]
  | newForeign =>
      simp only [sharedStep, Except.ok.injEq, Prod.mk.injEq] at h
      rcases h with ⟨rfl, rfl⟩
      simp only [heapOps, heapAnswers, Machine.run, step, create, hlength, values_makeObject]
      rfl
  | copy i =>
      simp only [sharedStep] at h
      split at h
      case h_1 => simp only [reduceCtorEq] at h
      case h_2 o ho =>
        simp only [Except.ok.injEq, Prod.mk.injEq] at h
        rcases h with ⟨rfl, rfl⟩
        simp only [heapOps, heapAnswers, Machine.run, step, create, hlength, values_makeObject,
          values_getElem?, ho, Option.map_some]
  | cause i | message i | position i | read c =>
      simp only [sharedStep] at h
      split at h
      case h_1 => simp only [reduceCtorEq] at h
      case h_2 =>
        simp only [Except.ok.injEq, Prod.mk.injEq] at h
        rcases h with ⟨rfl, rfl⟩
        rfl
  | whatstr i =>
      simp only [sharedStep] at h
      split at h
      case h_1 => simp only [reduceCtorEq] at h
      case h_2 m₁ c hc =>
        simp only [Except.ok.injEq, Prod.mk.injEq] at h
        rcases h with ⟨rfl, rfl⟩
        simp only [heapOps, heapAnswers, Machine.run, step, hlength, values_whatstr _ m hm i, hc,
          readReply]
  | what i =>
      simp only [sharedStep] at h
      split at h
      case h_1 => simp only [reduceCtorEq] at h
      case h_2 m₁ c hc =>
        split at h
        case h_1 => simp only [reduceCtorEq] at h
        case h_2 s hs =>
          simp only [Except.ok.injEq, Prod.mk.injEq] at h
          rcases h with ⟨rfl, rfl⟩
          rw [deref_ok_iff] at hs
          simp only [heapOps, heapAnswers, Machine.run, step, what, hlength,
            values_whatstr _ m hm i, hc, readReply, text_eq_of_getElem? m₁ c s hs]
  | write c s => exact absurd rfl (hwrite c s)

/-- A run without writes is, operation by operation, a run of the value model. -/
theorem values_run (ops : List SharedOp) (hwrite : ∀ c s, SharedOp.write c s ∉ ops) (m : Memory)
    (hm : Rooted m) (m' : Memory) (as : List SharedAnswer)
    (h : Machine.run sharedStep m ops = .ok (m', as)) :
    Machine.run step (values m) (heapRun m ops).1 = .ok (values m', (heapRun m ops).2) := by
  induction ops generalizing m as with
  | nil =>
      simp only [Machine.run, Except.ok.injEq, Prod.mk.injEq] at h
      rcases h with ⟨rfl, rfl⟩
      rfl
  | cons op ops ih =>
      rcases Machine.run_cons_ok sharedStep m op ops m' as h with ⟨m₁, a, as', hstep, hrest, -⟩
      simp only [List.mem_cons, not_or] at hwrite
      -- An operation may be several of the value model's, or none.
      have hfirst := values_step m hm op (fun c s heq => (hwrite c s).1 heq.symm) m₁ a hstep
      have hm₁ := (sharedStep_effect m op m₁ a hstep).rooted m op m₁ a hm
      have hlast := ih (fun c s => (hwrite c s).2) m₁ hm₁ as' hrest
      simp only [heapRun, hstep]
      exact Machine.run_append_ok step _ _ _ _ _ _ _ hfirst hlast

/-- A run that writes through no pointer is a run of the value model: with the
    same answers, and leaving exceptions that from then on describe themselves
    as the values do. -/
theorem sharing_invisible (ops : List SharedOp) (m : Memory) (as : List SharedAnswer)
    (h : Machine.run sharedStep ⟨[], []⟩ ops = .ok (m, as))
    (hwrite : ∀ c s, SharedOp.write c s ∉ ops) :
    Machine.run step [] (heapRun ⟨[], []⟩ ops).1 = .ok (values m, (heapRun ⟨[], []⟩ ops).2) ∧
      ∀ i, whatstr m.objects.length (values m) i =
        readReply (sharedWhatstr m.objects.length m i) := by
  refine ⟨values_run ops hwrite ⟨[], []⟩ rooted_nil m as h, ?_⟩
  intro i
  exact values_whatstr m.objects.length m (run_rooted ops m as h) i

/-- An exception is described, and its description is read. -/
theorem sharing_invisible_message :
    Machine.run step [] [.newMessage (str "m") (str "q"), .whatstr 0] =
        .ok ([.nsException ⟨none, str "m", str "q", some (str "Exception at q: m")⟩],
          [.created 0, .text (str "Exception at q: m")]) ∧
      ∀ i, whatstr 1 [.nsException ⟨none, str "m", str "q", some (str "Exception at q: m")⟩] i =
        readReply (sharedWhatstr 1 ⟨[str "q", str "m", str "Exception at q: m"],
          [.nsException ⟨none, 1, 0, some 2⟩]⟩ i) :=
  sharing_invisible [.makeString (str "q"), .newMessage (str "m") 0, .whatstr 0, .read 2] _ _ rfl
    (by simp only [List.mem_cons, reduceCtorEq, List.not_mem_nil, or_self, not_false_eq_true,
      implies_true])

end Exception

end Nanoservices
