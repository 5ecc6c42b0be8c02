import Nanoservices.Exception.NsException
import Nanoservices.Library.Machine

/-!
# What an Exception Says

The description of an exception without heap and caches. A `Description` is
what an exception was constructed from, down its chain of causes, and
`rendering` is the text it should give of itself, as the header documents it.

`Represents` connects the two. Causes are constructed before what they cause,
so they have smaller indices: this is what makes the recursion of `whatstr` end
within the number of objects. And a cache is empty or holds the rendering,
which every operation keeps, so an answer does not depend on what was asked or
copied before.

The rendering is defined for causes of any class, but `whatstr` gets it only
for a chain of `ns_exception`s. `whatstr_represents` says what it does in both
cases, and in the runs of this module it is the only step that can fail.

## Main definitions

* `Description`: What an exception was constructed from.
* `Description.rendering`: The text it should give of itself.
* `Description.Describable`: Every cause is an `ns_exception`.
* `specStep`, `MayIssue`: The specification and its callers' obligations.
* `Represents`: The heap is made of these descriptions.

## Theorems

* `Description.cString_rendering`: Nothing is cut off without NUL bytes.
* `whatstr_represents`: What `whatstr` returns and leaves.
* `step_represents`: One operation on represented objects.
* `descriptions_coherent`: Runs on chains of `ns_exception`s.
* `whatstr_ok_iff_describable`: Which exceptions can be described at all.
-/

namespace Nanoservices

namespace Exception

/-- What an exception was constructed from. -/
inductive Description
  /-- An exception of another class, by what its `what()` returns. -/
  | foreign (what : Str)
  | plain (message position : Str)
  | caused (message position : Str) (cause : Description)

namespace Description

/-- The text an exception should give of itself. -/
def rendering : Description → Str
  | foreign what => what
  | plain message position => str "Exception at " ++ position ++ str ": " ++ message
  | caused message position cause =>
    str "Exception at " ++ position ++ str ": " ++ message ++ str "\nCaused by: " ++
      cString cause.rendering

/-- The exception and all its causes are `ns_exception`s. -/
def Describable : Description → Prop
  | foreign _ => False
  | plain _ _ => True
  | caused _ _ cause => cause.Describable

/-- The exception itself is an `ns_exception`. -/
def IsNsException : Description → Prop
  | foreign _ => False
  | _ => True

/-- No NUL byte was passed anywhere. -/
def NulFree : Description → Prop
  | foreign what => (0 : UInt8) ∉ what
  | plain message position => (0 : UInt8) ∉ message ∧ (0 : UInt8) ∉ position
  | caused message position cause =>
    ((0 : UInt8) ∉ message ∧ (0 : UInt8) ∉ position) ∧ cause.NulFree

/-- Without NUL bytes the C string is the whole rendering, and so is the part
    of it that goes into another one. -/
theorem cString_rendering (d : Description) (h : d.NulFree) :
    cString d.rendering = d.rendering := by
  -- The texts around the message and position have no NUL bytes either.
  refine cString_of_not_mem d.rendering ?_
  induction d with
  | foreign what => exact h
  | plain message position =>
      rcases h with ⟨hmessage, hposition⟩
      have htext : (0 : UInt8) ∉ str "Exception at " ∧ (0 : UInt8) ∉ str ": " := by decide
      simp only [rendering, List.mem_append, not_or]
      exact ⟨⟨⟨htext.1, hposition⟩, htext.2⟩, hmessage⟩
  | caused message position cause ih =>
      rcases h with ⟨⟨hmessage, hposition⟩, hcause⟩
      have htext : ((0 : UInt8) ∉ str "Exception at " ∧ (0 : UInt8) ∉ str ": ") ∧
          (0 : UInt8) ∉ str "\nCaused by: " := by decide
      -- The C string of the cause goes into the rendering, and it is the whole of
      -- it.
      have hrec := ih hcause
      rw [← cString_of_not_mem cause.rendering hrec] at hrec
      simp only [rendering, List.mem_append, not_or]
      exact ⟨⟨⟨⟨⟨htext.1.1, hposition⟩, htext.1.2⟩, hmessage⟩, htext.2⟩, hrec⟩

end Description

/-- The specification: the descriptions of the objects constructed so far. -/
def specStep (ds : List Description) : Op → List Description × Answer
  | .newMessage message position =>
    (ds ++ [.plain (cString message) position], .created ds.length)
  | .newCaused none message position => (ds ++ [.plain message position], .created ds.length)
  | .newCaused (some c) message position =>
    (ds ++ [.caused message position (ds.getD c (.foreign []))], .created ds.length)
  | .newForeign what => (ds ++ [.foreign (cString what)], .created ds.length)
  | .copy i => (ds ++ [ds.getD i (.foreign [])], .created ds.length)
  | .what i => (ds, .text (cString (ds.getD i (.foreign [])).rendering))
  | .whatstr i => (ds, .text (ds.getD i (.foreign [])).rendering)

/-- A cause has been constructed, and what is copied or described is an
    `ns_exception`. -/
def MayIssue (ds : List Description) : Op → Prop
  | .newMessage _ _ => True
  | .newCaused none _ _ => True
  | .newCaused (some c) _ _ => c < ds.length
  | .newForeign _ => True
  | .copy i => ∃ d, ds[i]? = some d ∧ d.IsNsException
  | .what i => ∃ d, ds[i]? = some d ∧ d.IsNsException
  | .whatstr i => ∃ d, ds[i]? = some d ∧ d.IsNsException

/-- The same, and no exception of another class is constructed. -/
def MayIssueNs (ds : List Description) (op : Op) : Prop :=
  MayIssue ds op ∧ ∀ what, op ≠ .newForeign what

/-! ### Representation -/

/-- The object at an index was constructed as described, and its cache is empty
    or holds the rendering. -/
def ObjectFits (ds : List Description) (i : Nat) : Object → Description → Prop
  | .foreign what, d => d = .foreign what
  | .nsException e, d =>
    (match e.cause with
      | none => d = .plain e.message e.position
      | some c => c < i ∧ ∃ dc, ds[c]? = some dc ∧ d = .caused e.message e.position dc) ∧
    ∀ what, e.what = some what → what = d.rendering ∧ d.Describable

/-- The objects are those described. -/
def Represents (heap : Heap) (ds : List Description) : Prop :=
  heap.length = ds.length ∧
    ∀ i o d, heap[i]? = some o → ds[i]? = some d → ObjectFits ds i o d

/-- No objects, no descriptions. -/
theorem represents_nil : Represents [] [] := by
  refine ⟨rfl, ?_⟩
  intro i o d h
  simp only [List.getElem?_nil, reduceCtorEq] at h

/-- A described object is there. -/
theorem Represents.exists_object (heap : Heap) (ds : List Description) (h : Represents heap ds)
    (i : Nat) (d : Description) (hd : ds[i]? = some d) :
    ∃ o, heap[i]? = some o ∧ ObjectFits ds i o d := by
  have hlt : i < heap.length := by
    rw [h.1]
    exact (List.getElem?_eq_some_iff.mp hd).1
  exact ⟨_, List.getElem?_eq_getElem hlt, h.2 i _ d (List.getElem?_eq_getElem hlt) hd⟩

/-- An object is described. -/
theorem Represents.exists_description (heap : Heap) (ds : List Description)
    (h : Represents heap ds) (i : Nat) (o : Object) (ho : heap[i]? = some o) :
    ∃ d, ds[i]? = some d ∧ ObjectFits ds i o d := by
  have hlt : i < ds.length := by
    rw [← h.1]
    exact (List.getElem?_eq_some_iff.mp ho).1
  exact ⟨_, List.getElem?_eq_getElem hlt, h.2 i o _ ho (List.getElem?_eq_getElem hlt)⟩

/-- An object stays what it is when further ones are constructed, and so does a
    copy of it at a later index. -/
theorem objectFits_mono (ds ds' : List Description) (i j : Nat) (hij : i ≤ j) (o : Object)
    (d : Description) (h : ObjectFits ds i o d) : ObjectFits (ds ++ ds') j o d := by
  cases o with
  | foreign what => exact h
  | nsException e =>
      refine ⟨?_, h.2⟩
      have hcause := h.1
      cases hc : e.cause with
      | none =>
          simp only [hc] at hcause
          exact hcause
      | some c =>
          simp only [hc] at hcause
          -- The cause is where it was, and still before this object.
          rcases hcause with ⟨hlt, dc, hdc, hd⟩
          have hmem := (List.getElem?_eq_some_iff.mp hdc).1
          exact ⟨lt_of_lt_of_le hlt hij, dc, List.getElem?_append_left hmem ▸ hdc, hd⟩

/-- A copy of an object fits behind the objects there are. -/
theorem objectFits_copy (ds : List Description) (i : Nat) (d : Description) (hd : ds[i]? = some d)
    (o : Object) (h : ObjectFits ds i o d) : ObjectFits ds ds.length o d := by
  have hlt := (List.getElem?_eq_some_iff.mp hd).1
  have hcopy := objectFits_mono ds [] i ds.length (le_of_lt hlt) o d h
  rw [List.append_nil] at hcopy
  exact hcopy

/-- Constructing a described object. -/
theorem represents_append (heap : Heap) (ds : List Description) (h : Represents heap ds)
    (o : Object) (d : Description) (hfits : ObjectFits ds ds.length o d) :
    Represents (heap ++ [o]) (ds ++ [d]) := by
  have hlength : (heap ++ [o]).length = (ds ++ [d]).length := by
    rw [List.length_append, List.length_append, h.1]
    rfl
  refine ⟨hlength, ?_⟩
  intro i o' d' ho hd
  by_cases hi : i < ds.length
  · rw [List.getElem?_append_left (h.1 ▸ hi)] at ho
    rw [List.getElem?_append_left hi] at hd
    exact objectFits_mono ds [d] i i (le_refl i) o' d' (h.2 i o' d' ho hd)
  · -- Only the new object is left.
    have hlen : i = ds.length := by
      have hlt := (List.getElem?_eq_some_iff.mp hd).1
      rw [List.length_append, List.length_singleton] at hlt
      omega
    rw [hlen, ← h.1, List.getElem?_concat_length, Option.some.injEq] at ho
    rw [hlen, List.getElem?_concat_length, Option.some.injEq] at hd
    rw [hlen, ← ho, ← hd]
    exact objectFits_mono ds [d] _ _ (le_refl _) o d hfits

/-- Writing an object that fits its description. -/
theorem represents_set (heap : Heap) (ds : List Description) (h : Represents heap ds) (i : Nat)
    (o : Object) (d : Description) (hd : ds[i]? = some d) (hfits : ObjectFits ds i o d) :
    Represents (heap.set i o) ds := by
  have hlength : (heap.set i o).length = ds.length := by
    rw [List.length_set, h.1]
  refine ⟨hlength, ?_⟩
  intro j o' d' ho hd'
  by_cases hj : i = j
  · -- The object that was written fits, and the others have not been touched.
    subst hj
    rw [hd, Option.some.injEq] at hd'
    have hlt := (List.getElem?_eq_some_iff.mp ho).1
    rw [List.getElem?_set_self (by rwa [List.length_set] at hlt), Option.some.injEq] at ho
    rw [← ho, ← hd']
    exact hfits
  · rw [List.getElem?_set_ne hj] at ho
    exact h.2 j o' d' ho hd'

/-! ### Describing an exception -/

/-- On a chain of `ns_exception`s `whatstr` returns the rendering and leaves
    fitting caches; on any other it follows a null pointer. The recursion goes
    to smaller indices, so the index bounds its depth. -/
theorem whatstr_represents (fuel : Nat) (heap : Heap) (ds : List Description)
    (h : Represents heap ds) (i : Nat) (d : Description) (hd : ds[i]? = some d) (hi : i < fuel) :
    (d.Describable ∧ ∃ heap', whatstr fuel heap i = .ok (heap', d.rendering) ∧
        Represents heap' ds) ∨
      (¬ d.Describable ∧ whatstr fuel heap i = .error .nullDereference) := by
  induction fuel generalizing i d with
  | zero => exact absurd hi (Nat.not_lt_zero i)
  | succ fuel ih =>
      rcases h.exists_object _ _ i d hd with ⟨o, ho, hfits⟩
      cases o with
      | foreign what =>
          have hforeign : d = .foreign what := hfits
          subst hforeign
          refine Or.inr ⟨?_, ?_⟩
          · intro hdesc
            exact hdesc
          · simp only [whatstr, ho]
      | nsException e =>
          rcases e with ⟨cause, message, position, cached⟩
          cases cached with
          | some text =>
              -- The answer is cached, and what is cached is the rendering.
              rcases hfits.2 text rfl with ⟨rfl, hdesc⟩
              refine Or.inl ⟨hdesc, heap, ?_, h⟩
              simp only [whatstr, ho]
          | none =>
              cases cause with
              | none =>
                  have hplain : d = .plain message position := hfits.1
                  subst hplain
                  refine Or.inl ⟨trivial, heap.set i (.nsException ⟨none, message, position,
                    some (Description.plain message position).rendering⟩), ?_, ?_⟩
                  · simp only [whatstr, ho]
                    rfl
                  · refine represents_set heap ds h i _ _ hd ⟨rfl, ?_⟩
                    intro text htext
                    exact ⟨(Option.some.inj htext).symm, trivial⟩
              | some c =>
                  rcases hfits.1 with ⟨hlt, dc, hdc, rfl⟩
                  have hc : c < fuel := by omega
                  rcases ih c dc hdc hc with ⟨hdesc, heap', hrec, hrep⟩ | ⟨hdesc, hrec⟩
                  · -- The cause has been described, and its caches are filled.
                    refine Or.inl ⟨hdesc, heap'.set i (.nsException ⟨some c, message, position,
                      some (Description.caused message position dc).rendering⟩), ?_, ?_⟩
                    · simp only [whatstr, ho, hrec]
                      rfl
                    · refine represents_set heap' ds hrep i _ _ hd ⟨⟨hlt, dc, hdc, rfl⟩, ?_⟩
                      intro text htext
                      exact ⟨(Option.some.inj htext).symm, hdesc⟩
                  · -- The null pointer further down the chain ends this call too.
                    refine Or.inr ⟨hdesc, ?_⟩
                    simp only [whatstr, ho, hrec]

/-- As many levels of recursion as there are objects are enough. -/
theorem whatstr_length_represents (heap : Heap) (ds : List Description) (h : Represents heap ds)
    (i : Nat) (d : Description) (hd : ds[i]? = some d) :
    (d.Describable ∧ ∃ heap', whatstr heap.length heap i = .ok (heap', d.rendering) ∧
        Represents heap' ds) ∨
      (¬ d.Describable ∧ whatstr heap.length heap i = .error .nullDereference) := by
  refine whatstr_represents heap.length heap ds h i d hd ?_
  rw [h.1]
  exact (List.getElem?_eq_some_iff.mp hd).1

/-! ### Runs -/

/-- A description that is there is the one that is looked up. -/
theorem getD_of_getElem? (ds : List Description) (i : Nat) (d : Description)
    (h : ds[i]? = some d) : ds.getD i (.foreign []) = d := by
  rw [List.getD_eq_getElem?_getD, h, Option.getD_some]

/-- An object that is created comes behind the others, with its description
    behind theirs. -/
theorem create_represents (heap : Heap) (ds : List Description) (h : Represents heap ds)
    (o : Object) (d : Description) (hfits : ObjectFits ds ds.length o d) :
    ∃ heap', create heap o = (heap', .created ds.length) ∧ Represents heap' (ds ++ [d]) := by
  refine ⟨heap ++ [o], ?_, represents_append heap ds h o d hfits⟩
  rw [create, h.1]

/-- Nothing is cached in a new object. -/
theorem fits_of_no_cache (d : Description) (what : Str) (h : (none : Option Str) = some what) :
    what = d.rendering ∧ d.Describable := by
  simp only [reduceCtorEq] at h

/-- An operation the caller may issue is answered as specified, unless it asks
    for a description that cannot be given. -/
theorem step_represents (heap : Heap) (ds : List Description) (op : Op) (h : Represents heap ds)
    (hmay : MayIssue ds op) :
    (∃ heap', step heap op = .ok (heap', (specStep ds op).2) ∧
        Represents heap' (specStep ds op).1) ∨
      ((∃ u, step heap op = .error u) ∧ ∃ d ∈ ds, ¬ d.Describable) := by
  cases op with
  -- A constructor appends an object that fits by what it was given.
  | newMessage message position =>
      rcases create_represents heap ds h (.nsException ⟨none, cString message, position, none⟩)
        (.plain (cString message) position) ⟨rfl, fits_of_no_cache _⟩ with ⟨heap', hc, hr⟩
      refine Or.inl ⟨heap', ?_, hr⟩
      simp only [step, hc, specStep]
  | newCaused cause message position =>
      cases cause with
      | none =>
          rcases create_represents heap ds h (.nsException ⟨none, message, position, none⟩)
            (.plain message position) ⟨rfl, fits_of_no_cache _⟩ with ⟨heap', hc, hr⟩
          refine Or.inl ⟨heap', ?_, hr⟩
          simp only [step, hc, specStep]
      | some c =>
          have hlt : c < ds.length := hmay
          have hdc := List.getElem?_eq_getElem hlt
          have hcause := getD_of_getElem? ds c _ hdc
          rcases create_represents heap ds h (.nsException ⟨some c, message, position, none⟩)
            (.caused message position (ds.getD c (.foreign [])))
            ⟨⟨hlt, _, hdc, by rw [hcause]⟩, fits_of_no_cache _⟩ with ⟨heap', hc, hr⟩
          refine Or.inl ⟨heap', ?_, hr⟩
          simp only [step, hc, specStep]
  | newForeign what =>
      rcases create_represents heap ds h (.foreign (cString what)) (.foreign (cString what)) rfl
        with ⟨heap', hc, hr⟩
      refine Or.inl ⟨heap', ?_, hr⟩
      simp only [step, hc, specStep]
  -- A copy has the cause and the cache of the original.
  | copy i =>
      rcases hmay with ⟨d, hd, _⟩
      rcases h.exists_object _ _ i d hd with ⟨o, ho, hfits⟩
      have hcopy := objectFits_copy ds i d hd o hfits
      rcases create_represents heap ds h o d hcopy with ⟨heap', hc, hr⟩
      refine Or.inl ⟨heap', ?_, ?_⟩
      · simp only [step, ho, hc, specStep]
      · rw [specStep, getD_of_getElem? ds i d hd]
        exact hr
  | what i =>
      rcases hmay with ⟨d, hd, _⟩
      rcases whatstr_length_represents heap ds h i d hd with
        ⟨_, heap', hrun, hr⟩ | ⟨hdesc, hrun⟩
      · refine Or.inl ⟨heap', ?_, hr⟩
        simp only [step, what, hrun, specStep, getD_of_getElem? ds i d hd]
      · refine Or.inr ⟨⟨.nullDereference, ?_⟩, d, List.mem_of_getElem? hd, hdesc⟩
        simp only [step, what, hrun]
  | whatstr i =>
      rcases hmay with ⟨d, hd, _⟩
      rcases whatstr_length_represents heap ds h i d hd with
        ⟨_, heap', hrun, hr⟩ | ⟨hdesc, hrun⟩
      · refine Or.inl ⟨heap', ?_, hr⟩
        simp only [step, hrun, specStep, getD_of_getElem? ds i d hd]
      · refine Or.inr ⟨⟨.nullDereference, ?_⟩, d, List.mem_of_getElem? hd, hdesc⟩
        simp only [step, hrun]

/-- Whatever completes is answered as specified. -/
theorem step_sound : Machine.Sound step specStep MayIssue Represents := by
  intro heap ds op heap' o hR hmay hstep
  rcases step_represents heap ds op hR hmay with ⟨heap'', hok, hr⟩ | ⟨⟨u, hu⟩, _⟩
  · rw [hok, Except.ok.injEq, Prod.mk.injEq] at hstep
    exact ⟨hstep.2.symm, hstep.1 ▸ hr⟩
  · simp only [hu, reduceCtorEq] at hstep

/-- Without exceptions of other classes everything can be described, and stays
    so. -/
theorem specStep_describable (ds : List Description) (op : Op) (hmay : MayIssueNs ds op)
    (h : ∀ d ∈ ds, d.Describable) : ∀ d ∈ (specStep ds op).1, d.Describable := by
  have hsnoc : ∀ d : Description, d.Describable → ∀ d' ∈ ds ++ [d], d'.Describable := by
    intro d hd
    rw [List.forall_mem_append, List.forall_mem_singleton]
    exact ⟨h, hd⟩
  cases op with
  | newMessage message position => exact hsnoc _ trivial
  | newCaused cause message position =>
      cases cause with
      | none => exact hsnoc _ trivial
      | some c =>
          have hlt : c < ds.length := hmay.1
          have hdc := List.getElem?_eq_getElem hlt
          have hcause : (ds.getD c (.foreign [])).Describable := by
            rw [getD_of_getElem? ds c _ hdc]
            exact h _ (List.mem_of_getElem? hdc)
          exact hsnoc (.caused message position _) hcause
  -- This is what the caller may not issue.
  | newForeign what => exact absurd rfl (hmay.2 what)
  | copy i =>
      rcases hmay.1 with ⟨d, hd, _⟩
      rw [specStep, getD_of_getElem? ds i d hd]
      exact hsnoc d (h d (List.mem_of_getElem? hd))
  | what i => exact h
  | whatstr i => exact h

/-- While there are only `ns_exception`s, every operation completes, answers as
    the specification does, and leaves only such behind. -/
theorem step_simulates : Machine.Simulation step specStep MayIssueNs
    (fun heap ds => Represents heap ds ∧ ∀ d ∈ ds, d.Describable) := by
  intro heap ds op hR hmay
  rcases step_represents heap ds op hR.1 hmay.1 with ⟨heap', hok, hr⟩ | ⟨_, d, hd, hdesc⟩
  · exact ⟨heap', hok, hr, specStep_describable ds op hmay hR.2⟩
  · exact absurd (hR.2 d hd) hdesc

/-- Every run that constructs `ns_exception`s only, with null or earlier ones
    as causes, copies them and asks for their descriptions, completes; every
    answer is the rendering of the exception asked; and at its end, hence at
    any point of a run, every cache is empty or holds the rendering. -/
theorem descriptions_coherent (ops : List Op)
    (h : Machine.Admissible specStep MayIssueNs [] ops) :
    ∃ heap, Machine.run step [] ops = .ok (heap, (Machine.specRun specStep [] ops).2) ∧
      ∀ (i : Nat) (e : NsException), heap[i]? = some (.nsException e) →
        ∃ d, (Machine.specRun specStep [] ops).1[i]? = some d ∧
          (e.what = none ∨ e.what = some d.rendering) := by
  have hnil : ∀ d ∈ ([] : List Description), d.Describable := by
    intro d hd
    exact absurd hd List.not_mem_nil
  rcases step_simulates.run ops [] [] ⟨represents_nil, hnil⟩ h with ⟨heap, hrun, hR, _⟩
  refine ⟨heap, hrun, ?_⟩
  intro i e he
  -- Objects and specification agree at the end, so each object has its description.
  rcases hR.exists_description _ _ i _ he with ⟨d, hd, hfits⟩
  refine ⟨d, hd, ?_⟩
  cases hw : e.what with
  | none => exact Or.inl rfl
  | some text => exact Or.inr (congrArg some (hfits.2 text hw).1)

/-- An exception with a cause is copied before and after its description was
    asked for. -/
def copiedOps : List Op :=
  [.newMessage (str "cause") (str "a.cpp:1"), .newCaused (some 0) (str "effect") (str "b.cpp:2"),
    .copy 1, .what 2, .copy 2, .whatstr 1]

/-- The copies and their originals all say what they should. -/
theorem descriptions_coherent_copiedOps :
    ∃ heap, Machine.run step [] copiedOps =
        .ok (heap, (Machine.specRun specStep [] copiedOps).2) ∧
      ∀ (i : Nat) (e : NsException), heap[i]? = some (.nsException e) →
        ∃ d, (Machine.specRun specStep [] copiedOps).1[i]? = some d ∧
          (e.what = none ∨ e.what = some d.rendering) := by
  refine descriptions_coherent copiedOps ⟨⟨trivial, ?_⟩, ⟨Nat.zero_lt_one, ?_⟩,
    ⟨⟨_, rfl, trivial⟩, ?_⟩, ⟨⟨_, rfl, trivial⟩, ?_⟩, ⟨⟨_, rfl, trivial⟩, ?_⟩,
    ⟨⟨_, rfl, trivial⟩, ?_⟩, trivial⟩
  all_goals
    intro what
    simp only [ne_eq, reduceCtorEq, not_false_eq_true]

/-- In every state a run can reach, with causes of any class, an `ns_exception`
    gives the description it should, from `whatstr` and from `what`, exactly if
    every cause along its chain is an `ns_exception`. -/
theorem whatstr_ok_iff_describable (ops : List Op)
    (h : Machine.Admissible specStep MayIssue [] ops) (heap : Heap) (answers : List Answer)
    (hrun : Machine.run step [] ops = .ok (heap, answers)) (i : Nat) (e : NsException)
    (he : heap[i]? = some (.nsException e)) :
    ∃ d, (Machine.specRun specStep [] ops).1[i]? = some d ∧
      ((∃ heap', whatstr heap.length heap i = .ok (heap', d.rendering)) ↔ d.Describable) ∧
      ((∃ heap', what heap.length heap i = .ok (heap', cString d.rendering)) ↔ d.Describable) := by
  rcases step_sound.run ops [] [] represents_nil h heap answers hrun with ⟨_, hR⟩
  rcases hR.exists_description _ _ i _ he with ⟨d, hd, _⟩
  refine ⟨d, hd, ?_⟩
  -- Either both calls return, or both follow the null pointer.
  rcases whatstr_length_represents heap _ hR i d hd with ⟨hdesc, heap', hok, _⟩ | ⟨hdesc, herr⟩
  · have hwhat : what heap.length heap i = .ok (heap', cString d.rendering) := by
      rw [what, hok]
    exact ⟨iff_of_true ⟨heap', hok⟩ hdesc, iff_of_true ⟨heap', hwhat⟩ hdesc⟩
  · rw [what, herr]
    refine ⟨iff_of_false ?_ hdesc, iff_of_false ?_ hdesc⟩
    · rintro ⟨heap', hok⟩
      simp only [reduceCtorEq] at hok
    · rintro ⟨heap', hok⟩
      simp only [reduceCtorEq] at hok

/-- One exception caused by an exception of another class, and one caused by an
    `ns_exception`. -/
def causedOps : List Op :=
  [.newForeign (str "boom"), .newCaused (some 0) (str "m") (str "p"),
    .newMessage (str "n") (str "q"), .newCaused (some 2) (str "o") (str "r")]

/-- Causes are taken from the objects there are. -/
theorem causedOps_admissible : Machine.Admissible specStep MayIssue [] causedOps :=
  ⟨trivial, Nat.zero_lt_one, trivial, (show 2 < 3 by decide), trivial⟩

/-- The first of the two cannot be described, the second can. -/
theorem whatstr_ok_iff_describable_causedOps :
    ∃ heap answers, Machine.run step [] causedOps = .ok (heap, answers) ∧
      (¬ ∃ heap', whatstr heap.length heap 1 =
        .ok (heap', str "Exception at p: m\nCaused by: boom")) ∧
      ∃ heap', whatstr heap.length heap 3 =
        .ok (heap', str "Exception at r: o\nCaused by: Exception at q: n") := by
  refine ⟨_, _, rfl, ?_, ?_⟩
  · rcases whatstr_ok_iff_describable causedOps causedOps_admissible _ _ rfl 1 _ rfl with
      ⟨d, hd, hiff, _⟩
    rw [← Option.some.inj hd] at hiff
    -- The cause of the first is of another class.
    refine hiff.not.mpr ?_
    intro hdesc
    exact hdesc
  · rcases whatstr_ok_iff_describable causedOps causedOps_admissible _ _ rfl 3 _ rfl with
      ⟨d, hd, hiff, _⟩
    rw [← Option.some.inj hd] at hiff
    exact hiff.mpr trivial

/-- A cause of another class is cast to a null pointer, which is followed. -/
theorem not_whatstr_foreignCause :
    ¬ ∀ (ops : List Op), Machine.Admissible specStep MayIssue [] ops →
      ∀ (heap : Heap) (answers : List Answer), Machine.run step [] ops = .ok (heap, answers) →
        ∀ (i : Nat) (e : NsException) (d : Description), heap[i]? = some (.nsException e) →
          (Machine.specRun specStep [] ops).1[i]? = some d →
            ∃ heap', whatstr heap.length heap i = .ok (heap', d.rendering) := by
  intro h
  rcases h causedOps causedOps_admissible _ _ rfl 1 _ _ rfl rfl with ⟨heap', hok⟩
  simp only [whatstr, List.nil_append, List.cons_append, List.length_cons, List.length_nil,
    List.getElem?_cons_succ, List.getElem?_cons_zero, reduceCtorEq] at hok

end Exception

end Nanoservices
