import Mathlib.Data.List.TakeWhile

/-!
# Reading Memory

Computations that read memory behind a pointer, with a record of what they
read. The memory is the list of the elements that may be read, starting at the
pointer; a read beyond it is a fault. `Reading` pairs how a computation ends
with the offsets it read, so that a bound on the reads is a statement about the
computation and not about its result alone.

The scans are those for a sequence that a terminator ends: up to the
terminator, up to it or a limit, and a comparison of two sequences up to a
limit. Where nothing faults, each of them reads an initial segment of the
memory, and its length is known from the place of the first terminator.

## Main definitions

* `Reading`: How a computation ends, and the offsets it reads.
* `Finds`: What a computation finds, and a bound on what it reads.
* `scan`: The length of the sequence before the terminator.
* `scanUpTo`: The same, but no more than a limit.
* `copy`: The first elements.
* `equalUpTo`: Whether two sequences agree up to a limit.
* `beforeFirst`: The elements before the first terminator.

## Theorems

* `Finds.bind`: One computation after another.
* `finds_scan`, `finds_scanUpTo`, `finds_copy`, `finds_equalUpTo_nil`: What the
  scans find and read.
* `getElem?_ne_of_lt_beforeFirst`: No terminator stands before the first one.
-/

universe u v w x

/-- A computation that reads memory: how it ends, and the offsets it reads, in
    order. -/
structure Reading (ε : Type u) (α : Type v) where
  result : Except ε α
  reads : List Nat

namespace Reading

variable {ε : Type u} {α : Type v} {β : Type w} {γ : Type x}

/-- Read nothing and find `a`. -/
def pure (a : α) : Reading ε α := ⟨.ok a, []⟩

/-- Read with `x` and go on with what it found. A fault ends the computation,
    and what has been read up to it stays recorded. -/
def bind (x : Reading ε α) (f : α → Reading ε β) : Reading ε β :=
  match x.result with
  | .error e => ⟨.error e, x.reads⟩
  | .ok a => ⟨(f a).result, x.reads ++ (f a).reads⟩

/-- The computation does not fault, it finds `a`, and the offsets of all that it
    reads are in `P`. A bound on the reads is a choice of `P`. -/
def Finds (P : Nat → Prop) (x : Reading ε α) (a : α) : Prop :=
  x.result = .ok a ∧ ∀ i ∈ x.reads, P i

/-- What reads nothing meets every bound. -/
theorem finds_pure (P : Nat → Prop) (a : α) : Finds P (pure a : Reading ε α) a := by
  refine ⟨rfl, ?_⟩
  intro i hi
  exact absurd hi List.not_mem_nil

/-- If two computations meet a bound, so does the one after the other. The
    second is only asked about at what the first has found. -/
theorem Finds.bind {P : Nat → Prop} {x : Reading ε α} {f : α → Reading ε β} {a : α} {b : β}
    (hx : Finds P x a) (hf : Finds P (f a) b) : Finds P (x.bind f) b := by
  unfold Reading.bind
  rw [hx.1]
  refine ⟨hf.1, ?_⟩
  intro i hi
  exact (List.mem_append.mp hi).elim (hx.2 i) (hf.2 i)

/-- A bound may be widened. -/
theorem Finds.mono {P Q : Nat → Prop} {x : Reading ε α} {a : α} (h : Finds P x a)
    (hPQ : ∀ i, P i → Q i) : Finds Q x a := by
  refine ⟨h.1, ?_⟩
  intro i hi
  exact hPQ i (h.2 i hi)

/-- The first `n` elements. Where there are fewer, the read right behind the
    last one is the fault. -/
def copy (fault : ε) (n : Nat) (memory : List γ) : Reading ε (List γ) :=
  if n ≤ memory.length then ⟨.ok (memory.take n), List.range n⟩
  else ⟨.error fault, List.range (memory.length + 1)⟩

/-- Where there is enough memory a copy finds an initial segment and reads
    nothing behind it. -/
theorem finds_copy (fault : ε) (n : Nat) (memory : List γ) (h : n ≤ memory.length) :
    Finds (· < n) (copy fault n memory) (memory.take n) := by
  rw [copy, if_pos h]
  refine ⟨rfl, ?_⟩
  intro i hi
  exact List.mem_range.mp hi

variable [DecidableEq γ]

/-- Read from the offset `i` on until the terminator `z` is found, and say at
    which offset it is. There is no limit: memory without a terminator is read
    past its end. -/
def scanFrom (fault : ε) (z : γ) (i : Nat) : List γ → Reading ε Nat
  | [] => ⟨.error fault, [i]⟩
  | c :: memory =>
    if c = z then ⟨.ok i, [i]⟩
    else ⟨(scanFrom fault z (i + 1) memory).result, i :: (scanFrom fault z (i + 1) memory).reads⟩

/-- The number of elements before the terminator, as `strlen` counts them. -/
def scan (fault : ε) (z : γ) (memory : List γ) : Reading ε Nat := scanFrom fault z 0 memory

/-- Read `n` elements from the offset `i` on, or up to the terminator. The limit
    is looked at before the memory is, so a scan that is to read nothing reads
    nothing. -/
def scanUpToFrom (fault : ε) (z : γ) : Nat → Nat → List γ → Reading ε Nat
  | 0, i, _ => pure i
  | _ + 1, i, [] => ⟨.error fault, [i]⟩
  | n + 1, i, c :: memory =>
    if c = z then ⟨.ok i, [i]⟩
    else ⟨(scanUpToFrom fault z n (i + 1) memory).result,
      i :: (scanUpToFrom fault z n (i + 1) memory).reads⟩

/-- The number of elements before the terminator, if it is less than `n`, and
    otherwise `n`, as `strnlen` counts them. -/
def scanUpTo (fault : ε) (z : γ) (n : Nat) (memory : List γ) : Reading ε Nat :=
  scanUpToFrom fault z n 0 memory

/-- Whether a sequence and the memory from the offset `i` on are alike in their
    first `n` elements, or up to the terminator of both. -/
def equalUpToFrom (fault : ε) (z : γ) : Nat → Nat → List γ → List γ → Reading ε Bool
  | 0, _, _, _ => pure true
  | _ + 1, i, _, [] => ⟨.error fault, [i]⟩
  | _ + 1, i, [], c :: _ => ⟨.ok (c = z), [i]⟩
  | n + 1, i, a :: s, c :: memory =>
    if a = c then
      ⟨(equalUpToFrom fault z n (i + 1) s memory).result,
        i :: (equalUpToFrom fault z n (i + 1) s memory).reads⟩
    else ⟨.ok false, [i]⟩

/-- Whether the sequence `s`, which a terminator follows, and the memory are
    alike in their first `n` elements, or up to the terminator of both. -/
def equalUpTo (fault : ε) (z : γ) (n : Nat) (s memory : List γ) : Reading ε Bool :=
  equalUpToFrom fault z n 0 s memory

/-! ### What the scans find and read -/

/-- The elements before the first terminator, or all of them where there is
    none. -/
def beforeFirst (z : γ) (memory : List γ) : List γ := memory.takeWhile (· ≠ z)

/-- Nothing stands before a terminator at the start. -/
theorem beforeFirst_cons_self (z : γ) (memory : List γ) : beforeFirst z (z :: memory) = [] := by
  rw [beforeFirst, List.takeWhile_cons_of_neg]
  simp only [ne_eq, not_true_eq_false, decide_false, Bool.false_eq_true, not_false_eq_true]

/-- Another element at the start is one of those before the first terminator. -/
theorem beforeFirst_cons_of_ne (z c : γ) (memory : List γ) (hc : c ≠ z) :
    beforeFirst z (c :: memory) = c :: beforeFirst z memory :=
  List.takeWhile_cons_of_pos (decide_eq_true hc)

/-- No terminator stands before the first one: an offset below the length of
    what precedes it has some other element. -/
theorem getElem?_ne_of_lt_beforeFirst (z : γ) (memory : List γ) (j : Nat)
    (h : j < (beforeFirst z memory).length) : memory[j]? ≠ some z := by
  have hsplit : beforeFirst z memory ++ memory.dropWhile (· ≠ z) = memory :=
    List.takeWhile_append_dropWhile
  intro hz
  -- The offset is one of the initial segment, whose elements all differ from the
  -- terminator.
  have hmem : z ∈ beforeFirst z memory := by
    rw [← hsplit, List.getElem?_append_left h] at hz
    exact List.mem_of_getElem? hz
  have hne : decide (z ≠ z) = true := List.mem_takeWhile_imp (p := fun c => decide (c ≠ z)) hmem
  exact of_decide_eq_true hne rfl

/-- The elements before the first terminator are an initial segment of the
    memory, the one of their own length. -/
theorem beforeFirst_eq_take (z : γ) (memory : List γ) :
    memory.take (beforeFirst z memory).length = beforeFirst z memory :=
  (List.prefix_iff_eq_take.mp (List.takeWhile_prefix _)).symm

/-- Right behind the elements before it stands the terminator, provided that
    there is one. -/
theorem getElem?_length_beforeFirst (z : γ) (memory : List γ) (h : z ∈ memory) :
    memory[(beforeFirst z memory).length]? = some z := by
  induction memory with
  | nil => exact absurd h List.not_mem_nil
  | cons c memory ih =>
      -- The induction is on the memory, up to the element that is the terminator.
      by_cases hc : c = z
      · rw [hc, beforeFirst_cons_self]
        rfl
      · rw [beforeFirst_cons_of_ne z c memory hc, List.length_cons, List.getElem?_cons_succ]
        exact ih ((List.mem_cons.mp h).resolve_left (Ne.symm hc))

/-- A sequence that is stored with a terminator behind it is found again,
    whatever comes after the terminator. -/
theorem beforeFirst_append_cons (z : γ) (s memory : List γ) (h : z ∉ s) :
    beforeFirst z (s ++ z :: memory) = s := by
  induction s with
  | nil => exact beforeFirst_cons_self z memory
  | cons c s ih =>
      rw [List.mem_cons, not_or] at h
      rw [List.cons_append, beforeFirst_cons_of_ne z c _ (Ne.symm h.1), ih h.2]

/-- Without a terminator nothing is cut off. -/
theorem beforeFirst_of_not_mem (z : γ) (memory : List γ) (h : z ∉ memory) :
    beforeFirst z memory = memory := by
  refine List.takeWhile_eq_self_iff.mpr ?_
  intro c hc
  have hne : c ≠ z := by
    intro hz
    rw [hz] at hc
    exact h hc
  exact decide_eq_true hne

/-- A scan that has a terminator ahead stops at the first one, and it has read
    every offset from its start up to it. -/
theorem scanFrom_eq (fault : ε) (z : γ) (memory : List γ) (h : z ∈ memory) (i : Nat) :
    scanFrom fault z i memory =
      ⟨.ok (i + (beforeFirst z memory).length),
        List.range' i ((beforeFirst z memory).length + 1)⟩ := by
  induction memory generalizing i with
  | nil => exact absurd h List.not_mem_nil
  | cons c memory ih =>
      rw [scanFrom]
      -- Either the terminator is here, or the rest has it and the offsets move by
      -- one.
      by_cases hc : c = z
      · rw [if_pos hc, hc, beforeFirst_cons_self]
        rfl
      · have hmem : z ∈ memory := (List.mem_cons.mp h).resolve_left (Ne.symm hc)
        rw [if_neg hc, ih hmem (i + 1), beforeFirst_cons_of_ne z c memory hc, List.length_cons,
          List.range'_succ (s := i), Nat.add_right_comm i 1, Nat.add_assoc]

/-- Where there is a terminator, the scan finds the first one and reads no
    further than this. -/
theorem finds_scan (fault : ε) (z : γ) (memory : List γ) (h : z ∈ memory) :
    Finds (· ≤ (beforeFirst z memory).length) (scan fault z memory)
      (beforeFirst z memory).length := by
  rw [scan, scanFrom_eq fault z memory h, Nat.zero_add]
  refine ⟨rfl, ?_⟩
  intro i hi
  rw [List.mem_range'_1] at hi
  omega

/-- A limited scan stops at the first terminator or at the limit, whichever
    comes first. It needs a terminator or enough memory, not both. -/
theorem scanUpToFrom_eq (fault : ε) (z : γ) (n : Nat) (memory : List γ)
    (h : z ∈ memory ∨ n ≤ memory.length) (i : Nat) :
    scanUpToFrom fault z n i memory =
      ⟨.ok (i + min n (beforeFirst z memory).length),
        List.range' i (min n ((beforeFirst z memory).length + 1))⟩ := by
  -- The limit runs out before the memory does, so the induction is on the limit.
  induction n generalizing memory i with
  | zero =>
      rw [Nat.zero_min, Nat.zero_min, scanUpToFrom]
      rfl
  | succ n ih =>
      cases memory with
      | nil =>
          rcases h with h | h
          · exact absurd h List.not_mem_nil
          · exact absurd h (Nat.not_succ_le_zero n)
      | cons c memory =>
          rw [scanUpToFrom]
          by_cases hc : c = z
          · rw [if_pos hc, hc, beforeFirst_cons_self, List.length_nil, Nat.min_zero,
              Nat.min_eq_right (Nat.le_add_left 1 n)]
            rfl
          · -- What is left still has a terminator, or enough for what is left
            -- of the limit.
            have hrest : z ∈ memory ∨ n ≤ memory.length := by
              refine h.imp ?_ Nat.le_of_succ_le_succ
              intro hz
              exact (List.mem_cons.mp hz).resolve_left (Ne.symm hc)
            rw [if_neg hc, ih memory hrest (i + 1), beforeFirst_cons_of_ne z c memory hc,
              List.length_cons, Nat.add_min_add_right, Nat.add_min_add_right,
              List.range'_succ (s := i), Nat.add_right_comm i 1, Nat.add_assoc]

/-- Where there is a terminator or enough to read, the scan stops at the first
    terminator or at the limit, and reads neither behind the one nor behind the
    other. -/
theorem finds_scanUpTo (fault : ε) (z : γ) (n : Nat) (memory : List γ)
    (h : z ∈ memory ∨ n ≤ memory.length) :
    Finds (fun i => i ≤ (beforeFirst z memory).length ∧ i < n) (scanUpTo fault z n memory)
      (min n (beforeFirst z memory).length) := by
  rw [scanUpTo, scanUpToFrom_eq fault z n memory h, Nat.zero_add]
  refine ⟨rfl, ?_⟩
  intro i hi
  -- The offsets that are read are a range, and its end is the smaller of two bounds.
  rw [List.mem_range'_1] at hi
  omega

/-- Comparing with the empty sequence takes one read, and the answer is whether
    the memory starts with the terminator. -/
theorem finds_equalUpTo_nil (fault : ε) (z : γ) (n : Nat) (memory : List γ) (h : memory ≠ []) :
    Finds (· = 0) (equalUpTo fault z (n + 1) [] memory) (decide (beforeFirst z memory = [])) := by
  cases memory with
  | nil => exact absurd rfl h
  | cons c memory =>
      -- The element that is read is the terminator exactly if nothing comes
      -- before one.
      have hiff : c = z ↔ beforeFirst z (c :: memory) = [] := by
        by_cases hc : c = z
        · rw [hc, beforeFirst_cons_self]
          exact iff_of_true rfl rfl
        · rw [beforeFirst_cons_of_ne z c memory hc]
          exact iff_of_false hc (List.cons_ne_nil c _)
      refine ⟨congrArg Except.ok (decide_eq_decide.mpr hiff), ?_⟩
      intro i hi
      exact List.mem_singleton.mp hi

end Reading
