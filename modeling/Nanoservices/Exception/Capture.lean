import Nanoservices.Exception.Rendering

/-!
# Capturing a Cause

The two ways of giving an exception a cause that is at hand as an
`ns_exception`: a pointer to a copy of it, or a reference to it.

The constructor that takes a reference makes the copy itself, but as a
`std::exception`. What is copied is the base class part of the cause, which has
no message, no position and no cause, and whose `what()` is the text that the
standard library gives its base class. That text is a parameter here, since the
library may choose it.

So the copy is an exception of another class than `ns_exception`, and the new
exception cannot be described at all, whatever its cause was
(`newByReference_spec`). By pointer nothing is lost (`newByPointer_spec`).

## Main definitions

* `withCause`: A new object and a new exception that has it as its cause.
* `newByReference`: `ns_exception(const exception &, message, position)`.
* `newByPointer`: The other constructor, on a pointer to a copy.
* `virtualWhat`, `causeWhat`: `what()` through a pointer, and `cause()->what()`.
* `CaptureAgrees`: Both constructors make exceptions that say the same.

## Theorems

* `newByPointer_spec`: An exception made by pointer says what it should.
* `newByReference_spec`: What an exception made by reference says instead.
* `captureAgrees_never`: The constructors agree on no cause.
-/

namespace Nanoservices

namespace Exception

/-- The heap with a new object in it and, behind it, a new `ns_exception` that
    the object is the cause of. -/
def withCause (heap : Heap) (cause : Object) (message position : Str) : Heap :=
  heap ++ [cause, .nsException ⟨some heap.length, message, position, none⟩]

/-- `ns_exception(const exception &, message, position)`, of the object at an
    index: the new heap, and the index of the new exception in it. -/
def newByReference (baseWhat : Str) (heap : Heap) (cause : Nat) (message position : Str) :
    Except Undefined (Heap × Nat) :=
  match heap[cause]? with
  | none => .error .outOfBounds
  -- `make_shared<std::exception>(cause)` copies the base class part.
  | some _ => .ok (withCause heap (.foreign baseWhat) message position, heap.length + 1)

/-- `ns_exception(shared_ptr<exception>, message, position)`, of a pointer to a
    copy of the object at an index. -/
def newByPointer (heap : Heap) (cause : Nat) (message position : Str) :
    Except Undefined (Heap × Nat) :=
  match Machine.run step heap [.copy cause, .newCaused (some heap.length) message position] with
  | .error u => .error u
  | .ok (heap', _) => .ok (heap', heap.length + 1)

/-- `what()` of the object at an index, through a pointer to `std::exception`:
    the object's own class decides. -/
def virtualWhat (heap : Heap) (i : Nat) : Except Undefined (Heap × Str) :=
  match heap[i]? with
  | none => .error .outOfBounds
  | some (.foreign text) => .ok (heap, cString text)
  | some (.nsException _) => what heap.length heap i

/-- `cause()->what()` of the exception at an index. -/
def causeWhat (heap : Heap) (i : Nat) : Except Undefined (Heap × Str) :=
  match heap[i]? with
  | some (.nsException e) => match e.cause with
    | none => .error .nullDereference
    | some c => virtualWhat heap c
  | _ => .error .outOfBounds

/-- Capturing by reference loses nothing: the cause says what the original says,
    and the new exception says what one made by pointer does. -/
def CaptureAgrees (baseWhat : Str) (heap : Heap) (cause : Nat) (message position : Str) : Prop :=
  ∃ byRef r byPtr p, newByReference baseWhat heap cause message position = .ok (byRef, r) ∧
    newByPointer heap cause message position = .ok (byPtr, p) ∧
    (∃ h₁ h₂ text, virtualWhat heap cause = .ok (h₁, text) ∧ causeWhat byRef r = .ok (h₂, text)) ∧
    ∃ h₁ h₂ text, whatstr byRef.length byRef r = .ok (h₁, text) ∧
      whatstr byPtr.length byPtr p = .ok (h₂, text)

/-- The cause is put behind the objects there were. -/
theorem withCause_cause (heap : Heap) (cause : Object) (message position : Str) :
    (withCause heap cause message position)[heap.length]? = some cause := by
  rw [withCause, List.getElem?_append_right (le_refl _), Nat.sub_self]
  rfl

/-- The exception is put behind its cause and points to it. -/
theorem withCause_exception (heap : Heap) (cause : Object) (message position : Str) :
    (withCause heap cause message position)[heap.length + 1]? =
      some (.nsException ⟨some heap.length, message, position, none⟩) := by
  rw [withCause, List.getElem?_append_right (Nat.le_add_right _ 1), Nat.add_sub_cancel_left]
  rfl

/-! ### By pointer -/

/-- By pointer the cause is copied as what it is. -/
theorem newByPointer_eq (heap : Heap) (i : Nat) (o : Object) (ho : heap[i]? = some o)
    (message position : Str) :
    newByPointer heap i message position =
      .ok (withCause heap o message position, heap.length + 1) := by
  simp only [newByPointer, Machine.run, step, ho, create, withCause, List.append_assoc,
    List.cons_append, List.nil_append]

/-- A copy of a described object is described as the object is, and the
    exception it causes as caused by it. -/
theorem represents_withCause (heap : Heap) (ds : List Description) (h : Represents heap ds)
    (i : Nat) (d : Description) (hd : ds[i]? = some d) (o : Object) (ho : heap[i]? = some o)
    (message position : Str) :
    Represents (withCause heap o message position) (ds ++ [d] ++ [.caused message position d]) := by
  have hrep := represents_append heap ds h o d (objectFits_copy ds i d hd o (h.2 i o d ho hd))
  -- The cause is the object before the exception.
  have hcause : (ds ++ [d])[heap.length]? = some d := by
    rw [h.1, List.getElem?_concat_length]
  have hbefore := (List.getElem?_eq_some_iff.mp hcause).1
  have hrep' := represents_append _ _ hrep
    (.nsException ⟨some heap.length, message, position, none⟩) (.caused message position d)
    ⟨⟨hbefore, d, hcause, rfl⟩, fits_of_no_cache _⟩
  rw [List.append_assoc heap] at hrep'
  exact hrep'

/-- By pointer a cause that can be described is captured whole: the copy says
    what the original does, and the new exception says what it should. -/
theorem newByPointer_spec (heap : Heap) (ds : List Description) (h : Represents heap ds) (i : Nat)
    (d : Description) (hd : ds[i]? = some d) (hdesc : d.Describable) (message position : Str) :
    ∃ heap' k, newByPointer heap i message position = .ok (heap', k) ∧
      (∃ h₁, causeWhat heap' k = .ok (h₁, cString d.rendering)) ∧
      ∃ h₁, whatstr heap'.length heap' k =
        .ok (h₁, (Description.caused message position d).rendering) := by
  rcases h.exists_object _ _ i d hd with ⟨o, ho, hfits⟩
  have hrep := represents_withCause heap ds h i d hd o ho message position
  have hcause : (ds ++ [d] ++ [.caused message position d])[heap.length]? = some d := by
    rw [h.1, List.append_assoc, List.getElem?_append_right (le_refl _), Nat.sub_self]
    rfl
  -- The new exception is the last of the descriptions, right behind its cause.
  have hnew : (ds ++ [d] ++ [.caused message position d])[heap.length + 1]? =
      some (.caused message position d) := by
    have hlength : (ds ++ [d]).length = heap.length + 1 := by
      rw [List.length_append, h.1, List.length_singleton]
    rw [← hlength, List.getElem?_concat_length]
  refine ⟨_, _, newByPointer_eq heap i o ho message position, ?_, ?_⟩
  · -- The copy is asked through the pointer, and its class answers.
    rcases whatstr_length_represents _ _ hrep _ d hcause with ⟨_, h₁, hok, _⟩ | ⟨hnot, _⟩
    · cases o with
      | foreign text =>
          have hforeign : d = .foreign text := hfits
          rw [hforeign] at hdesc
          -- An exception of another class cannot be described.
          exact absurd hdesc not_false
      | nsException e =>
          refine ⟨h₁, ?_⟩
          simp only [causeWhat, withCause_exception, virtualWhat, withCause_cause, what, hok]
    · exact absurd hdesc hnot
  · rcases whatstr_length_represents _ _ hrep _ _ hnew with ⟨_, h₁, hok, _⟩ | ⟨hnot, _⟩
    · exact ⟨h₁, hok⟩
    · exact absurd hdesc hnot

/-! ### By reference -/

/-- By reference a cause is reduced to its base class: it says what that says,
    and asking the new exception for its description follows a null pointer. -/
theorem newByReference_spec (baseWhat : Str) (heap : Heap) (i : Nat) (message position : Str)
    (heap' : Heap) (k : Nat)
    (h : newByReference baseWhat heap i message position = .ok (heap', k)) :
    causeWhat heap' k = .ok (heap', cString baseWhat) ∧
      whatstr heap'.length heap' k = .error .nullDereference := by
  unfold newByReference at h
  cases hi : heap[i]? with
  | none => simp only [hi, reduceCtorEq] at h
  | some o =>
      simp only [hi, Except.ok.injEq, Prod.mk.injEq] at h
      rcases h with ⟨rfl, rfl⟩
      have hlength : (withCause heap (.foreign baseWhat) message position).length =
          heap.length + 2 := List.length_append
      constructor
      · -- The copy has the base class only, whatever the cause was.
        simp only [causeWhat, withCause_exception, virtualWhat, withCause_cause]
      · -- The cast of the cause to `ns_exception` fails.
        rw [hlength]
        simp only [whatstr, withCause_exception, withCause_cause]

/-- On no cause do the two constructors agree. By reference the cause is copied
    as a `std::exception`: what it said is lost, and since the copy is no
    `ns_exception`, the new exception cannot be described. -/
theorem captureAgrees_never (baseWhat : Str) (heap : Heap) (cause : Nat) (message position : Str) :
    ¬ CaptureAgrees baseWhat heap cause message position := by
  rintro ⟨byRef, r, byPtr, p, href, _, _, h₁, h₂, text, hok, _⟩
  rw [(newByReference_spec baseWhat heap cause message position byRef r href).2] at hok
  simp only [reduceCtorEq] at hok

/-- A cause alone in the heap. -/
theorem not_captureAgrees_sample :
    ¬ CaptureAgrees (str "std::exception") [.nsException ⟨none, str "m", str "p", none⟩] 0
      (str "n") (str "q") := by
  rintro ⟨byRef, r, _, _, href, _, _, h₁, _, text, hok, _⟩
  rw [(newByReference_spec _ _ _ _ _ byRef r href).2] at hok
  simp only [reduceCtorEq] at hok

end Exception

end Nanoservices
