import Nanoservices.Core.Fault

/-!
# ns_exception

Exception objects, and the description an exception gives of itself. An
`ns_exception` may point to the exception that caused it, and many may point to
one, so the objects live in a heap and refer to each other by index. The
description is made when it is asked for and cached in the object; since it
contains the description of the cause, asking for one fills the caches of the
whole chain.

A cause is a `shared_ptr<std::exception>` and need not lead to an
`ns_exception`. `whatstr` casts it to one without looking at the result, and
the cast of any other exception is a null pointer.

A description goes into another one as a C string, and so does the argument of
the message constructor: what follows a NUL in them is lost.

## Main definitions

* `NsException`, `Object`, `Heap`: Exception objects.
* `whatstr`, `what`: `ns_exception::whatstr` and `ns_exception::what`.
* `Op`, `Answer`, `step`: The objects as a machine.
-/

namespace Nanoservices

namespace Exception

/-- `ns_exception` -/
structure NsException where
  /-- `_cause`, null or an object of the heap. -/
  cause : Option Nat
  message : Str
  position : Str
  /-- `_what`, null until the description is first asked for. -/
  what : Option Str

/-- An object of a class derived from `std::exception`. -/
inductive Object
  | nsException (e : NsException)
  /-- Any other class, with what its `what()` returns. -/
  | foreign (what : Str)

/-- The exception objects, in the order of their construction. -/
abbrev Heap := List Object

/-- `fmt::format("Exception at {}: {}", *_position, *_message)` -/
def NsException.headline (e : NsException) : Str :=
  str "Exception at " ++ e.position ++ str ": " ++ e.message

/-- `ns_exception::whatstr` of the object at an index. The first argument
    bounds the recursion: one that is deeper than there are objects does not
    end. -/
def whatstr : Nat → Heap → Nat → Except Undefined (Heap × Str)
  | 0, _, _ => .error .stackOverflow
  | fuel + 1, heap, i =>
    match heap[i]? with
    | some (.nsException e) =>
      match e.what with
      | some what => .ok (heap, what)
      -- Collect the description, and leave it in the object.
      | none =>
        match e.cause with
        | none => .ok (heap.set i (.nsException { e with what := some e.headline }), e.headline)
        | some cause =>
          match whatstr fuel heap cause with
          | .error u => .error u
          -- The caches further down the chain have been filled.
          | .ok (heap', causeWhat) =>
            let what := e.headline ++ str "\nCaused by: " ++ cString causeWhat
            .ok (heap'.set i (.nsException { e with what := some what }), what)
    -- `dynamic_pointer_cast` has returned a null pointer.
    | _ => .error .nullDereference

/-- `ns_exception::what`, up to the NUL that ends it. -/
def what (fuel : Nat) (heap : Heap) (i : Nat) : Except Undefined (Heap × Str) :=
  match whatstr fuel heap i with
  | .error u => .error u
  | .ok (heap', text) => .ok (heap', cString text)

/-- What a program does with exceptions. -/
inductive Op
  /-- `ns_exception(const char *, position)` -/
  | newMessage (message position : Str)
  /-- `ns_exception(shared_ptr<exception>, message, position)` -/
  | newCaused (cause : Option Nat) (message position : Str)
  /-- The constructor of another exception class. -/
  | newForeign (what : Str)
  /-- The copy constructor. -/
  | copy (i : Nat)
  | what (i : Nat)
  | whatstr (i : Nat)

/-- The index of a new object, or a description. -/
inductive Answer
  | created (i : Nat)
  | text (s : Str)

/-- Construct an object. -/
def create (heap : Heap) (o : Object) : Heap × Answer := (heap ++ [o], .created heap.length)

/-- One operation. -/
def step (heap : Heap) : Op → Except Undefined (Heap × Answer)
  | .newMessage message position =>
    .ok (create heap (.nsException ⟨none, cString message, position, none⟩))
  | .newCaused cause message position =>
    .ok (create heap (.nsException ⟨cause, message, position, none⟩))
  | .newForeign what => .ok (create heap (.foreign (cString what)))
  | .copy i => match heap[i]? with
    | none => .error .outOfBounds
    | some o => .ok (create heap o)
  | .what i => match Exception.what heap.length heap i with
    | .error u => .error u
    | .ok (heap', text) => .ok (heap', .text text)
  | .whatstr i => match Exception.whatstr heap.length heap i with
    | .error u => .error u
    | .ok (heap', text) => .ok (heap', .text text)

end Exception

end Nanoservices
