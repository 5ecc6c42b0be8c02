import Nanoservices.Core.Bytes
import Nanoservices.Core.Fault
import Nanoservices.Library.SortedMap

/-!
# The Testing Context

`ns_testing_context`: test functions are registered under a name while the
program starts, one `NSTEST_ADD` after another, and `run_tests` calls them all
and counts how they ended.

A test function is anything that can be called. It may read and change the
state of the program, and it returns whether the test passed or throws. What
functions there are and what calling one does are parameters of the model, and
so is `what()` of the exceptions that they throw: `run_tests` asks for it, for
the line that it logs, and `what()` of an exception that cannot be described
does not return.

`runTestsCatching` is `run_tests`, over a call of a test function with what
`run_tests` catches of it. `runTests` is the same with every call coming back.
The log lines are left out here.

## Main definitions

* `Outcome`: How a test ends.
* `Leaving`: How a test function leaves.
* `addTest`: `ns_testing_context::add_test`.
* `register`: One registration after another.
* `catching`: The handlers of `run_tests`.
* `tried`: A call of a test function, with them.
* `performTestsCatching`, `countResults`: The loops of `run_tests`.
* `runTestsCatching`: `ns_testing_context::run_tests`.
* `performTests`, `runTests`: The same where every call comes back.
-/

namespace Nanoservices

namespace Testing

/-- How a test ends. -/
inductive Outcome
  | returned (result : Bool)
  /-- It throws an exception derived from `std::exception`. -/
  | threwException
  /-- It throws anything else. -/
  | threwOther
  deriving DecidableEq, Repr

/-- The result of a test: both `catch` clauses make it `false`. -/
def Outcome.result : Outcome → Bool
  | .returned result => result
  | .threwException => false
  | .threwOther => false

/-- How a test function leaves. An exception derived from `std::exception` is an
    `ε`. -/
inductive Leaving (ε : Type)
  | returned (result : Bool)
  | threw (e : ε)
  | threwOther

/-- The end of a test is the way its function left. -/
def Leaving.outcome {ε : Type} : Leaving ε → Outcome
  | .returned result => .returned result
  | .threw _ => .threwException
  | .threwOther => .threwOther

/-- `ns_testing_context::_tests`, for functions of the type `φ`. -/
abbrev Tests (φ : Type) := SortedMap Str φ

variable {φ σ ε : Type}

/-- `ns_testing_context::add_test`: the tests afterwards, and what it
    returns. -/
def addTest (tests : Tests φ) (funcname : Str) (func : φ) : Tests φ × Int :=
  (tests.tryEmplace funcname func, 0)

/-- The registrations of a program, in the order in which its static variables
    are initialized. -/
def register (tests : Tests φ) : List (Str × φ) → Tests φ
  | [] => tests
  | (funcname, func) :: registrations => register (addTest tests funcname func).1 registrations

/-- A call of a test function. -/
structure Call (φ : Type) where
  testName : Str
  testFunc : φ
  outcome : Outcome

/-- What `run_tests` does when a test function has left. `e.what()` is an argument
    of the warning that it logs, so it is called at every level of the logger,
    and where it does not return nothing comes after it. -/
def catching (what : σ → ε → Except Undefined (σ × Str)) (s : σ) :
    Leaving ε → Except Undefined (Outcome × σ)
  | .returned result => .ok (.returned result, s)
  | .threw e => match what s e with
    | .error u => .error u
    | .ok (s', _) => .ok (.threwException, s')
  | .threwOther => .ok (.threwOther, s)

/-- A call of a test function by `run_tests`. -/
def tried (what : σ → ε → Except Undefined (σ × Str)) (invoke : φ → σ → Leaving ε × σ) (func : φ)
    (s : σ) : Except Undefined (Outcome × σ) :=
  catching what (invoke func s).2 (invoke func s).1

/-- The first loop of `run_tests`: call each function, and put its result under
    its name. With the results come the calls that were made. -/
def performTestsCatching (call : φ → σ → Except Undefined (Outcome × σ)) :
    List (Str × φ) → SortedMap Str Bool → σ →
      Except Undefined (List (Call φ) × SortedMap Str Bool × σ)
  | [], testResults, s => .ok ([], testResults, s)
  | (testName, testFunc) :: tests, testResults, s => match call testFunc s with
    | .error u => .error u
    | .ok (outcome, s') =>
      match performTestsCatching call tests (testResults.insert testName outcome.result) s' with
      | .error u => .error u
      | .ok (calls, rest) => .ok (⟨testName, testFunc, outcome⟩ :: calls, rest)

/-- The first loop, where every call comes back. -/
def performTests (invoke : φ → σ → Outcome × σ) :
    List (Str × φ) → SortedMap Str Bool → σ → List (Call φ) × SortedMap Str Bool × σ
  | [], testResults, s => ([], testResults, s)
  | (testName, testFunc) :: tests, testResults, s =>
    let (outcome, s') := invoke testFunc s
    let (calls, rest) :=
      performTests invoke tests (testResults.insert testName outcome.result) s'
    (⟨testName, testFunc, outcome⟩ :: calls, rest)

/-- The counters of `run_tests`, of the type `uint32_t`. -/
structure Counts where
  totalCount : UInt32
  passedCount : UInt32
  failedCount : UInt32
  deriving DecidableEq

/-- The second loop of `run_tests`: count the results. -/
def countResults : List (Str × Bool) → Counts → Counts
  | [], counts => counts
  | (_, testResult) :: testResults, counts =>
    let counts := { counts with totalCount := counts.totalCount + 1 }
    if testResult then
      countResults testResults { counts with passedCount := counts.passedCount + 1 }
    else countResults testResults { counts with failedCount := counts.failedCount + 1 }

/-- What `run_tests` did: the calls it made, in order, the counts it reports,
    and the state of the program afterwards. -/
structure Report (φ σ : Type) where
  calls : List (Call φ)
  counts : Counts
  state : σ

/-- `ns_testing_context::run_tests` -/
def runTestsCatching (call : φ → σ → Except Undefined (Outcome × σ)) (tests : Tests φ) (s : σ) :
    Except Undefined (Report φ σ) :=
  match performTestsCatching call tests.entries SortedMap.empty s with
  | .error u => .error u
  | .ok (calls, testResults, s') =>
    .ok ⟨calls, countResults testResults.entries ⟨0, 0, 0⟩, s'⟩

/-- `ns_testing_context::run_tests`, where every call comes back. -/
def runTests (invoke : φ → σ → Outcome × σ) (tests : Tests φ) (s : σ) : Report φ σ :=
  let (calls, testResults, s') := performTests invoke tests.entries SortedMap.empty s
  ⟨calls, countResults testResults.entries ⟨0, 0, 0⟩, s'⟩

end Testing

end Nanoservices
