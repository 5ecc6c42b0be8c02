import Mathlib.Data.List.Dedup
import Nanoservices.Configuration.LastWriter

/-!
# What Lookups Leave Behind

A lookup that finds nothing writes to the store. This module says what the store
holds after any run, entry by entry, and that nobody can tell.

Under a name that was bound there is its last value, under one that was only
asked for there is a null pointer, and there is nothing else. So there are as
many entries as names were ever bound or asked for: a program that asks for
more and more names fills its memory with null pointers.

Asking is not observed by later calls. Of any run, lookups may be left out at
will, each by itself; the calls that stay are answered as before
(`lookups_unobservable`).

## Main definitions

* `Call.names`: The name a call asks for.
* `entry`: What the store holds under a name.
* `Holds`: The store holds that under every name.

## Theorems

* `step_holds`, `run_holds`: What calls leave in the store.
* `store_exact`: The entries after every run.
* `lookups_unobservable`: Lookups can be left out.
-/

namespace Nanoservices

namespace Configuration

/-- The name that a call asks for, if it gets as far as the store. -/
def Call.names : Call → List Str
  | .initializeArgv _ _ => []
  | .getProperty name => if name = [] then [] else [name]

/-- What the store holds under a name, after these bindings and lookups. -/
def entry (bound : List (Str × Str)) (asked : List Str) (name : Str) : Option (Option Str) :=
  match lastBinding bound name with
  | some value => some (some value)
  | none => if name ∈ asked then some none else none

/-- The store holds just what the bindings and lookups have put there. -/
def Holds (properties : Properties) (bound : List (Str × Str)) (asked : List Str) : Prop :=
  ∀ name, properties.find? name = entry bound asked name

/-- A binding puts its value under its name, and the other names keep what they
    have. -/
theorem entry_append (bound : List (Str × Str)) (asked : List Str) (b : Str × Str) (name : Str) :
    entry (bound ++ [b]) asked name =
      if name = b.1 then some (some b.2) else entry bound asked name := by
  rw [entry, lastBinding_append]
  by_cases hname : name = b.1
  · rw [if_pos hname, if_pos hname.symm]
  · rw [if_neg hname, if_neg (Ne.symm hname), entry]

/-- The assignments of a command line are bindings of the store. -/
theorem holds_insertAll (properties : Properties) (bound added : List (Str × Str))
    (asked : List Str) (h : Holds properties bound asked) :
    Holds (properties.insertAll (added.map fun b => (b.1, some b.2))) (bound ++ added) asked := by
  induction added generalizing properties bound with
  | nil =>
      rw [List.append_nil]
      exact h
  | cons b added ih =>
      rw [List.map_cons, SortedMap.insertAll_cons, List.append_cons]
      refine ih _ _ ?_
      intro name
      rw [SortedMap.find?_insert, entry_append, h name]
      -- The name of this binding has its value now, the others are as they were.
      by_cases hname : name = b.1
      · rw [if_pos hname, if_pos hname]
      · rw [if_neg hname, if_neg hname]

/-- A lookup leaves what its name is bound to, or a null pointer. -/
theorem entry_ask (bound : List (Str × Str)) (asked : List Str) (name name' : Str) :
    entry bound (asked ++ [name]) name' =
      if name' = name then some (lastBinding bound name) else entry bound asked name' := by
  unfold entry
  by_cases hname : name' = name
  · rw [if_pos hname, hname]
    cases lastBinding bound name with
    | some value => rfl
    | none => simp only [List.mem_append, List.mem_singleton, or_true, if_true]
  · simp only [List.mem_append, List.mem_singleton, hname, or_false, if_false]

/-- What can be got under a name is its last binding, however often it was asked
    for. -/
theorem join_entry (bound : List (Str × Str)) (asked : List Str) (name : Str) :
    (entry bound asked name).join = lastBinding bound name := by
  cases hlast : lastBinding bound name with
  | some value => simp only [entry, hlast, Option.join_some]
  | none =>
      by_cases hmem : name ∈ asked
      · simp only [entry, hlast, hmem, if_true, Option.join_some]
      · simp only [entry, hlast, hmem, if_false, Option.join_none]

/-- After a lookup there is something under the name, if only a null pointer. -/
theorem find?_fst_getProperty (name : Str) (hne : name ≠ []) (properties : Properties)
    (name' : Str) :
    (getProperty name properties).1.find? name' =
      if name' = name then some (properties.find? name).join else properties.find? name' := by
  rw [getProperty, if_neg hne]
  cases hfind : properties.find? name with
  -- What is found stays there.
  | some result =>
      by_cases hname : name' = name
      · rw [if_pos hname, hname, hfind, Option.join_some]
      · rw [if_neg hname]
  | none =>
      -- `operator[]` puts a null pointer under the name.
      rw [SortedMap.find?_insert]
      by_cases hname : name' = name
      · rw [if_pos hname, if_pos hname, Option.join_none]
      · rw [if_neg hname, if_neg hname]

/-- A lookup adds a null pointer where there was nothing, and nothing else. -/
theorem holds_getProperty (properties : Properties) (bound : List (Str × Str)) (asked : List Str)
    (h : Holds properties bound asked) (name : Str) (hne : name ≠ []) :
    Holds (getProperty name properties).1 bound (asked ++ [name]) := by
  intro name'
  rw [find?_fst_getProperty name hne, entry_ask, h name, h name', join_entry]

/-- One call. -/
theorem step_holds (properties : Properties) (bound : List (Str × Str)) (asked : List Str)
    (h : Holds properties bound asked) (call : Call) (hcall : call.Readable) :
    ∃ properties' answer, step properties call = .ok (properties', answer) ∧
      Holds properties' (bound ++ call.bindings) (asked ++ call.names) := by
  cases call with
  | initializeArgv argc argv =>
      refine ⟨properties.insertAll ((bindings argc argv).map fun b => (b.1, some b.2)), .done,
        ?_, ?_⟩
      · simp only [step, initializeArgv_eq argc argv hcall]
      · rw [Call.names, List.append_nil]
        exact holds_insertAll properties bound (bindings argc argv) asked h
  | getProperty name =>
      refine ⟨_, _, rfl, ?_⟩
      rw [Call.bindings, List.append_nil, Call.names]
      -- The empty name is answered before the store is looked at.
      by_cases hne : name = []
      · rw [if_pos hne, List.append_nil, getProperty, if_pos hne]
        exact h
      · rw [if_neg hne]
        exact holds_getProperty properties bound asked h name hne

/-- A run. -/
theorem run_holds (calls : List Call) (hcalls : ∀ call ∈ calls, call.Readable)
    (properties : Properties) (bound : List (Str × Str)) (asked : List Str)
    (h : Holds properties bound asked) :
    ∃ properties' answers, Machine.run step properties calls = .ok (properties', answers) ∧
      Holds properties' (bound ++ calls.flatMap Call.bindings)
        (asked ++ calls.flatMap Call.names) := by
  induction calls generalizing properties bound asked with
  | nil =>
      refine ⟨properties, [], rfl, ?_⟩
      rw [List.flatMap_nil, List.flatMap_nil, List.append_nil, List.append_nil]
      exact h
  | cons call calls ih =>
      rw [List.forall_mem_cons] at hcalls
      -- Bindings and lookups of this call come before those of the others.
      rcases step_holds properties bound asked h call hcalls.1 with ⟨p₁, answer, hstep, h₁⟩
      rcases ih hcalls.2 p₁ _ _ h₁ with ⟨p₂, answers, hrun, h₂⟩
      refine ⟨p₂, answer :: answers, ?_, ?_⟩
      · simp only [Machine.run, hstep, hrun]
      · rw [List.flatMap_cons, List.flatMap_cons, ← List.append_assoc, ← List.append_assoc]
        exact h₂

/-- A name is bound if it has a last binding. -/
theorem mem_map_fst_iff (bound : List (Str × Str)) (name : Str) :
    name ∈ bound.map Prod.fst ↔ ∃ value, lastBinding bound name = some value := by
  have hlast : (∃ value, lastBinding bound name = some value) ↔
      bound.filter (fun b => b.1 = name) ≠ [] := by
    rw [← Option.isSome_iff_exists, lastBinding, Option.isSome_map, List.getLast?_isSome]
  rw [hlast, List.mem_map]
  constructor
  · rintro ⟨b, hb, rfl⟩
    exact List.ne_nil_of_mem (List.mem_filter.mpr ⟨hb, decide_eq_true rfl⟩)
  · intro hne
    rcases List.exists_mem_of_ne_nil _ hne with ⟨b, hb⟩
    rw [List.mem_filter, decide_eq_true_eq] at hb
    exact ⟨b, hb⟩

/-- After every run the store holds the last value under each name that was
    bound, a null pointer under each that was only asked for, and nothing
    else: it has grown by an entry for every name ever mentioned. -/
theorem store_exact (calls : List Call) (h : ∀ call ∈ calls, call.Readable) :
    ∃ properties answers, Machine.run step SortedMap.empty calls = .ok (properties, answers) ∧
      (∀ name, properties.find? name =
        entry (calls.flatMap Call.bindings) (calls.flatMap Call.names) name) ∧
      properties.keys.Perm
        ((calls.flatMap Call.bindings).map Prod.fst ++ calls.flatMap Call.names).dedup := by
  rcases run_holds calls h SortedMap.empty [] [] (fun _ => rfl) with ⟨properties, answers, hrun, hh⟩
  rw [List.nil_append, List.nil_append] at hh
  refine ⟨properties, answers, hrun, hh, ?_⟩
  -- The keys are what is found, and no key is there twice.
  have hnodup : properties.keys.Nodup := properties.keys_nodup
  rw [List.perm_ext_iff_of_nodup hnodup (List.nodup_dedup _)]
  intro name
  rw [SortedMap.mem_keys_iff, hh name, List.mem_dedup, List.mem_append, mem_map_fst_iff, entry]
  cases lastBinding (calls.flatMap Call.bindings) name with
  | some value => simp only [Option.some.injEq, exists_eq', true_or]
  | none =>
      simp only [reduceCtorEq, exists_false, false_or]
      by_cases hmem : name ∈ calls.flatMap Call.names
      · simp only [hmem, if_true, Option.some.injEq, exists_eq']
      · simp only [hmem, if_false, reduceCtorEq, exists_false]

/-- `main a a`, with a lookup of another name before and one of `a` after. -/
def askedCalls : List Call :=
  [.getProperty (str "b"), .initializeArgv 3 fun _ => some (str "a"), .getProperty (str "a")]

/-- Every argument of the command line can be read. -/
theorem readable_askedCalls : ∀ call ∈ askedCalls, call.Readable := by
  simp only [askedCalls, List.forall_mem_cons, Call.Readable, true_and, List.not_mem_nil,
    false_implies, implies_true, and_true]
  intro i _ _
  rfl

/-- The entry of `b` is a null pointer, and that of `a` is its value. -/
theorem store_exact_askedCalls :
    ∃ properties answers, Machine.run step SortedMap.empty askedCalls = .ok (properties, answers) ∧
      (∀ name, properties.find? name =
        entry (askedCalls.flatMap Call.bindings) (askedCalls.flatMap Call.names) name) ∧
      properties.keys.Perm ((askedCalls.flatMap Call.bindings).map Prod.fst ++
        askedCalls.flatMap Call.names).dedup :=
  store_exact askedCalls readable_askedCalls

/-! ### Leaving lookups out -/

/-- Any of the lookups of a run may be left out, each by itself: those that are
    not marked are, also where the same name is looked up again. The other calls
    are answered as before. -/
theorem lookups_unobservable (marked : List (Call × Bool))
    (hcalls : ∀ p ∈ marked, p.1.Readable)
    (h : ∀ p ∈ marked, p.2 = false → ∃ name, p.1 = .getProperty name) :
    ∃ properties answers properties' answers',
      Machine.run step SortedMap.empty (marked.map Prod.fst) = .ok (properties, answers) ∧
      answers.length = marked.length ∧
      Machine.run step SortedMap.empty ((marked.filter Prod.snd).map Prod.fst) =
        .ok (properties', answers') ∧
      answers' = ((marked.zip answers).filter fun q => q.1.2).map Prod.snd := by
  have hall : ∀ call ∈ marked.map Prod.fst, call.Readable := by
    rw [List.forall_mem_map]
    exact hcalls
  have hkept : ∀ call ∈ (marked.filter Prod.snd).map Prod.fst, call.Readable := by
    rw [List.forall_mem_map]
    intro p hp
    exact hcalls p (List.mem_filter.mp hp).1
  -- A lookup changes nothing in the specification, so it can be left out there.
  have hlookup : ∀ p ∈ marked, p.2 = false → ∀ bound, (specStep bound p.1).1 = bound := by
    intro p hp hmark bound
    rcases h p hp hmark with ⟨name, hname⟩
    rw [specStep_fst, hname, Call.bindings, List.append_nil]
  rcases run_agrees _ hall with ⟨properties, hrun, -⟩
  rcases run_agrees _ hkept with ⟨properties', hrun', -⟩
  refine ⟨properties, _, properties', _, hrun, ?_, hrun', ?_⟩
  · rw [Machine.length_specRun, List.length_map]
  · exact Machine.specRun_marked specStep marked hlookup []

/-- The same name is looked up before and after `main b b`, and the first of the
    two lookups is left out. -/
theorem lookups_unobservable_twice :
    ∃ properties answers properties' answers',
      Machine.run step SortedMap.empty [.getProperty (str "b"),
          .initializeArgv 3 fun _ => some (str "b"), .getProperty (str "b")] =
        .ok (properties, answers) ∧
      answers.length = 3 ∧
      Machine.run step SortedMap.empty [.initializeArgv 3 fun _ => some (str "b"),
          .getProperty (str "b")] = .ok (properties', answers') ∧
      answers' = (([(Call.getProperty (str "b"), false),
          (.initializeArgv 3 fun _ => some (str "b"), true),
          (.getProperty (str "b"), true)].zip answers).filter fun q => q.1.2).map Prod.snd := by
  refine lookups_unobservable [(Call.getProperty (str "b"), false),
    (.initializeArgv 3 fun _ => some (str "b"), true), (.getProperty (str "b"), true)] ?_ ?_
  · simp only [List.forall_mem_cons, Call.Readable, true_and, List.not_mem_nil, false_implies,
      implies_true, and_true]
    intro i _ _
    rfl
  · simp only [List.forall_mem_cons, List.not_mem_nil, false_implies, implies_true, and_true,
      Bool.true_eq_false]
    exact fun _ => ⟨_, rfl⟩

end Configuration

end Nanoservices
