import Nanoservices.Configuration.Properties
import Nanoservices.Library.Machine

/-!
# The Configuration as a Last-Writer Map

What the configuration is for: a lookup answers with the value that was bound
to the name last. The specification keeps the bindings in the order in which
they were made and looks a name up from the end, and a lookup does not change
it.

The store of `Configuration.Properties` differs from that in two ways. A loop
of insertions keeps only the surviving bindings, and a lookup leaves null
entries behind. The relation `Agrees` sees neither: it compares what is found,
with a stored null pointer counting as nothing. One step of the store keeps it
(`step_simulates`), and so do runs of any length.

## Main definitions

* `bindings`: What a call to `initialize` binds, in order.
* `Call`, `Answer`, `step`: The configuration as a machine.
* `specStep`: The specification.
* `lastBinding`: The value bound to a name last.
* `Agrees`: The store finds what the specification finds.

## Theorems

* `initializeArgv_eq`: `initialize` inserts its bindings from left to right.
* `step_simulates`: One call keeps the store and the specification together.
* `run_agrees`: So does every run.
* `getProperty_lastWriter`: Every lookup of every run answers with the last
  binding.
-/

namespace Nanoservices

namespace Configuration

/-- The C string at an index of the argument vector. -/
def argument (argv : ArgumentVector) (i : Nat) : Str := ((argv i).map cString).getD []

/-- The pairs of arguments from an index on. -/
def bindingsFrom (argv : ArgumentVector) (i n : Nat) : List (Str × Str) :=
  (List.range n).map fun j => (argument argv (i + 2 * j), argument argv (i + 2 * j + 1))

/-- What a call to `initialize` binds, in order: each argument at an odd index
    that has one after it, to the one after it. -/
def bindings (argc : Int) (argv : ArgumentVector) : List (Str × Str) :=
  bindingsFrom argv 1 ((argc - 1) / 2).toNat

/-- `argv` holds C strings from index 1 up to `argc`. -/
def Readable (argc : Int) (argv : ArgumentVector) : Prop :=
  ∀ i : Nat, 1 ≤ i → (i : Int) < argc → (argv i).isSome

/-- The first binding is the pair at the index, and the others come two
    arguments later. -/
theorem bindingsFrom_succ (argv : ArgumentVector) (i n : Nat) :
    bindingsFrom argv i (n + 1) =
      (argument argv i, argument argv (i + 1)) :: bindingsFrom argv (i + 2) n := by
  rw [bindingsFrom, bindingsFrom, List.range_succ_eq_map, List.map_cons, List.map_map]
  refine congrArg₂ _ rfl (List.map_congr_left ?_)
  intro j _
  have hindex : i + (2 * j + 2) = i + 2 + 2 * j := by omega
  simp only [Function.comp_apply, Nat.mul_succ, hindex]

/-- The arguments from 1 on can be read. -/
theorem readArgument_eq (argc : Int) (argv : ArgumentVector) (h : Readable argc argv) (i : Nat)
    (hi : 1 ≤ i) (hlt : (i : Int) < argc) : readArgument argv i = .ok (argument argv i) := by
  rcases Option.isSome_iff_exists.mp (h i hi hlt) with ⟨s, hs⟩
  simp only [readArgument, argument, hs, Option.map_some, Option.getD_some]

/-- The loop inserts the pairs that are left. The induction is on their number,
    which the index alone determines. -/
theorem initializeLoop_eq (argc : Int) (argv : ArgumentVector) (h : Readable argc argv) (n i : Nat)
    (hi : 1 ≤ i) (hn : ((argc - i) / 2).toNat = n) (properties : Properties) :
    initializeLoop argc argv i properties =
      .ok (properties.insertAll ((bindingsFrom argv i n).map fun b => (b.1, some b.2))) := by
  induction n generalizing i properties with
  | zero =>
      -- At most one argument is left, and it has no partner.
      have hend : ¬ (i : Int) < argc - 1 := by omega
      rw [initializeLoop, if_neg hend]
      rfl
  | succ n ih =>
      have hmore : (i : Int) < argc - 1 := by omega
      have hname := readArgument_eq argc argv h i hi (by omega)
      have hvalue := readArgument_eq argc argv h (i + 1) (by omega) (by omega)
      have hrest := ih (i + 2) (by omega) (by omega)
      rw [initializeLoop, if_pos hmore, hname, hvalue]
      simp only [hrest, bindingsFrom_succ, List.map_cons, SortedMap.insertAll_cons]

/-- A readable command line is stored pair by pair, later pairs over earlier
    ones. -/
theorem initializeArgv_eq (argc : Int) (argv : ArgumentVector) (h : Readable argc argv)
    (properties : Properties) :
    initializeArgv argc argv properties =
      .ok (properties.insertAll ((bindings argc argv).map fun b => (b.1, some b.2))) := by
  unfold initializeArgv
  by_cases hargc : argc < 3
  · -- The early return binds what the loop would: nothing.
    have hnone : ((argc - 1) / 2).toNat = 0 := by omega
    rw [if_pos hargc, bindings, hnone]
    rfl
  · rw [if_neg hargc]
    exact initializeLoop_eq argc argv h _ 1 (Nat.le_refl 1) rfl properties

/-! ### Runs -/

/-- A call to the configuration. -/
inductive Call
  | initializeArgv (argc : Int) (argv : ArgumentVector)
  | getProperty (propertyName : Str)

/-- What a call returns. -/
inductive Answer
  | done
  | property (value : Option Str)

/-- One call. -/
def step (properties : Properties) : Call → Except Undefined (Properties × Answer)
  | .initializeArgv argc argv => match initializeArgv argc argv properties with
    | .error u => .error u
    | .ok properties' => .ok (properties', .done)
  | .getProperty name =>
    .ok ((getProperty name properties).1, .property (getProperty name properties).2)

/-- What a call binds. -/
def Call.bindings : Call → List (Str × Str)
  | .initializeArgv argc argv => Configuration.bindings argc argv
  | .getProperty _ => []

/-- The arguments are there to be read. -/
def Call.Readable : Call → Prop
  | .initializeArgv argc argv => Configuration.Readable argc argv
  | .getProperty _ => True

/-- The value that was bound to the name last. -/
def lastBinding (bound : List (Str × Str)) (name : Str) : Option Str :=
  ((bound.filter fun b => b.1 = name).getLast?).map Prod.snd

/-- The specification: the bindings made so far, looked up from the last. The
    empty name is not looked up. -/
def specStep (bound : List (Str × Str)) (call : Call) : List (Str × Str) × Answer :=
  (bound ++ call.bindings, match call with
    | .initializeArgv _ _ => .done
    | .getProperty name => .property (if name = [] then some [] else lastBinding bound name))

/-- The specification only collects bindings. -/
theorem specStep_fst (bound : List (Str × Str)) (call : Call) :
    (specStep bound call).1 = bound ++ call.bindings := rfl

/-- The store finds under every name what was bound to it last. -/
def Agrees (properties : Properties) (bound : List (Str × Str)) : Prop :=
  ∀ name, (properties.find? name).join = lastBinding bound name

/-- The last binding of a name is the one at the end, if that is one of the
    name. -/
theorem lastBinding_append (bound : List (Str × Str)) (b : Str × Str) (name : Str) :
    lastBinding (bound ++ [b]) name = if b.1 = name then some b.2 else lastBinding bound name := by
  rw [lastBinding, List.filter_append]
  by_cases hb : b.1 = name
  · simp only [List.filter_cons, List.filter_nil, hb, decide_true, if_true, List.getLast?_concat,
      Option.map_some]
  · simp only [List.filter_cons, List.filter_nil, hb, decide_false, Bool.false_eq_true, if_false,
      List.append_nil, lastBinding]

/-- Inserting bindings is binding. -/
theorem agrees_insertAll (properties : Properties) (bound added : List (Str × Str))
    (h : Agrees properties bound) :
    Agrees (properties.insertAll (added.map fun b => (b.1, some b.2))) (bound ++ added) := by
  induction added generalizing properties bound with
  | nil =>
      rw [List.append_nil]
      exact h
  | cons b added ih =>
      rw [List.map_cons, SortedMap.insertAll_cons, List.append_cons]
      refine ih _ _ ?_
      intro name
      rw [lastBinding_append, SortedMap.find?_insert, ← h name]
      by_cases hname : name = b.1
      · rw [if_pos hname, if_pos hname.symm, Option.join_some]
      · rw [if_neg hname, if_neg (Ne.symm hname)]

/-- A lookup answers with the last binding, and what it leaves in the store is
    not seen. -/
theorem getProperty_agrees (properties : Properties) (bound : List (Str × Str))
    (h : Agrees properties bound) (name : Str) :
    (getProperty name properties).2 = (if name = [] then some [] else lastBinding bound name) ∧
      Agrees (getProperty name properties).1 bound := by
  constructor
  · by_cases hname : name = []
    · simp only [getProperty, hname, if_true]
    · rw [getProperty_answer name properties hname, h name, if_neg hname]
  · intro name'
    rw [find?_getProperty]
    exact h name'

/-- One call keeps the store and the specification together. -/
theorem step_simulates :
    Machine.Simulation step specStep (fun _ call => call.Readable) Agrees := by
  intro properties bound call hR hmay
  cases call with
  | initializeArgv argc argv =>
      refine ⟨_, ?_, agrees_insertAll properties bound (bindings argc argv) hR⟩
      simp only [step, initializeArgv_eq argc argv hmay, specStep]
  | getProperty name =>
      rcases getProperty_agrees properties bound hR name with ⟨hanswer, hagrees⟩
      refine ⟨(getProperty name properties).1, ?_, ?_⟩
      · rw [step, specStep, hanswer]
      · rw [specStep, Call.bindings, List.append_nil]
        exact hagrees

/-- After a run it has collected the bindings of all its calls. -/
theorem specRun_bindings (bound : List (Str × Str)) (calls : List Call) :
    (Machine.specRun specStep bound calls).1 = bound ++ calls.flatMap Call.bindings := by
  induction calls generalizing bound with
  | nil => rw [Machine.specRun, List.flatMap_nil, List.append_nil]
  | cons call calls ih =>
      rw [Machine.specRun, ih, List.flatMap_cons, specStep_fst, List.append_assoc]

/-- From the empty configuration every sequence of calls completes with the
    specified answers, and the store finds what the calls bound last. -/
theorem run_agrees (calls : List Call) (h : ∀ call ∈ calls, call.Readable) :
    ∃ properties, Machine.run step SortedMap.empty calls =
        .ok (properties, (Machine.specRun specStep [] calls).2) ∧
      Agrees properties (calls.flatMap Call.bindings) := by
  have hempty : Agrees SortedMap.empty [] := by
    intro name
    rfl
  have hadm := Machine.admissible_of_forall specStep Call.Readable calls [] h
  rcases step_simulates.run calls SortedMap.empty [] hempty hadm with ⟨properties, hrun, hagrees⟩
  rw [specRun_bindings, List.nil_append] at hagrees
  exact ⟨properties, hrun, hagrees⟩

/-- From the empty configuration every sequence of calls completes, and every
    lookup of a name in it answers with the value the calls before it bound to
    the name last, or with a null pointer if they bound none. -/
theorem getProperty_lastWriter (calls : List Call) (h : ∀ call ∈ calls, call.Readable) :
    ∃ properties answers, Machine.run step SortedMap.empty calls = .ok (properties, answers) ∧
      ∀ (i : Nat) (name : Str), calls[i]? = some (.getProperty name) → name ≠ [] →
        answers[i]? = some (.property
          (lastBinding ((calls.take i).flatMap Call.bindings) name)) := by
  rcases run_agrees calls h with ⟨properties, hrun, _⟩
  refine ⟨properties, _, hrun, ?_⟩
  intro i name hi hname
  rw [Machine.specRun_getElem? specStep calls [] i _ hi, specRun_bindings, List.nil_append]
  simp only [specStep, if_neg hname]

/-- `main a 1 b`, with a lookup before and two after. -/
def sampleCalls : List Call :=
  [.getProperty (str "a"),
    .initializeArgv 4 fun i => [str "main", str "a", str "1", str "b"][i]?,
    .getProperty (str "a"), .getProperty (str "b")]

/-- The null entry is overwritten, and the argument left over binds nothing. -/
theorem getProperty_lastWriter_sampleCalls :
    ∃ properties answers, Machine.run step SortedMap.empty sampleCalls = .ok (properties, answers) ∧
      answers[0]? = some (.property none) ∧ answers[2]? = some (.property (some (str "1"))) ∧
      answers[3]? = some (.property none) := by
  have hargv : ∀ call ∈ sampleCalls, call.Readable := by
    simp only [sampleCalls, List.forall_mem_cons, Call.Readable, true_and, List.not_mem_nil,
      false_implies, implies_true, and_true]
    intro i _ hi
    have hlt : i < [str "main", str "a", str "1", str "b"].length := by
      rw [List.length_cons, List.length_cons, List.length_cons, List.length_cons, List.length_nil]
      omega
    exact Option.isSome_iff_exists.mpr ⟨_, List.getElem?_eq_getElem hlt⟩
  rcases getProperty_lastWriter sampleCalls hargv with ⟨properties, answers, hrun, h⟩
  exact ⟨properties, answers, hrun, h 0 (str "a") rfl (by decide), h 2 (str "a") rfl (by decide),
    h 3 (str "b") rfl (by decide)⟩

end Configuration

end Nanoservices
