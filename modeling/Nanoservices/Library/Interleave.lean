import Mathlib.Algebra.Ring.Parity

/-!
# Interleaved Lists

Lists that lay pairs out flat: first component, second component, first
component, and so on. `interleave` writes such a list and `pairs` reads it
back; an odd element at the end belongs to no pair and is dropped.

`Alternate P Q` says what stands at the even and at the odd positions without
asking for an even length, so it also describes a list that was cut off after
a first component. `pairInduction` is the induction that walks such a list two
elements at a time, and every lemma here follows it.

## Main definitions

* `interleave`: Pairs laid out flat.
* `pairs`: The pairs of a flat list.
* `Alternate`: One predicate at even positions, another at odd ones.

## Theorems

* `pairInduction`: Induction two elements at a time.
* `pairs_interleave`: Reading back what was laid out.
* `interleave_pairs`: A flat list of even length is the layout of its pairs.
* `alternate_interleave`: `Alternate` on a layout is a statement on the pairs.
* `alternate_mem_pairs`: What `Alternate` says about each pair.
* `Alternate.headD`: The first two places, filled up with defaults.
* `Alternate.imp`: Weakening both predicates.
* `Alternate.left`: Cutting the list off.
* `alternate_iff_forall`: When both predicates amount to one.
* `mem_of_mem_pairs`: The components of a pair are in the flat list.
-/

universe u

namespace Interleave

variable {α : Type u}

/-- Lay out pairs flat, the first component of each before the second. -/
def interleave : List (α × α) → List α
  | [] => []
  | p :: l => p.1 :: p.2 :: interleave l

/-- The pairs of a flat list. An element left over at the end has no partner
    and is dropped. -/
def pairs : List α → List (α × α)
  | a :: b :: l => (a, b) :: pairs l
  | _ => []

/-- `P` at the even positions and `Q` at the odd ones. -/
def Alternate (P Q : α → Prop) : List α → Prop
  | [] => True
  | [a] => P a
  | a :: b :: l => P a ∧ Q b ∧ Alternate P Q l

/-- Induction two elements at a time, with one element possibly left over at the
    end. -/
@[elab_as_elim] theorem pairInduction {motive : List α → Prop} (nil : motive [])
    (single : ∀ a, motive [a]) (pair : ∀ a b l, motive l → motive (a :: b :: l)) :
    ∀ l, motive l
  | [] => nil
  | [a] => single a
  | a :: b :: l => pair a b l (pairInduction nil single pair l)

/-- The layout of pairs is twice as long. -/
@[simp] theorem length_interleave (l : List (α × α)) : (interleave l).length = 2 * l.length := by
  induction l with
  | nil => rfl
  | cons p l ih =>
      simp only [interleave, List.length_cons, ih]
      omega

/-- Reading back what was laid out gives the pairs again. -/
theorem pairs_interleave (l : List (α × α)) : pairs (interleave l) = l := by
  induction l with
  | nil => rfl
  | cons p l ih => rw [interleave, pairs, ih]

/-- A flat list of even length is the layout of its pairs; nothing is left over
    at its end. -/
theorem interleave_pairs (l : List α) (h : Even l.length) : interleave (pairs l) = l := by
  induction l using pairInduction with
  | nil => rfl
  | single a => exact absurd h Nat.not_even_one
  | pair a b l ih =>
      -- Taking a pair away keeps the parity.
      have hl : Even l.length := by
        rw [List.length_cons, List.length_cons] at h
        simpa only [Nat.even_add_one, not_not] using h
      rw [pairs, interleave, ih hl]

/-- A layout alternates exactly if each pair has the one property in its first
    component and the other in its second. -/
theorem alternate_interleave (P Q : α → Prop) (l : List (α × α)) :
    Alternate P Q (interleave l) ↔ ∀ p ∈ l, P p.1 ∧ Q p.2 := by
  induction l with
  | nil => simp only [interleave, Alternate, List.not_mem_nil, false_implies, implies_true]
  | cons p l ih => rw [interleave, Alternate, ih, List.forall_mem_cons, and_assoc]

/-- An alternating list keeps its promise on every pair. -/
theorem alternate_mem_pairs (P Q : α → Prop) (l : List α) (h : Alternate P Q l) :
    ∀ p ∈ pairs l, P p.1 ∧ Q p.2 := by
  induction l using pairInduction with
  | nil =>
      intro p hp
      exact absurd hp List.not_mem_nil
  | single a =>
      -- The element without a partner is in no pair.
      intro p hp
      exact absurd hp List.not_mem_nil
  | pair a b l ih =>
      rw [pairs, List.forall_mem_cons]
      exact ⟨⟨h.1, h.2.1⟩, ih h.2.2⟩

/-- The components of a pair are in the flat list. -/
theorem mem_of_mem_pairs (l : List α) (p : α × α) (h : p ∈ pairs l) : p.1 ∈ l ∧ p.2 ∈ l := by
  induction l using pairInduction with
  | nil => exact absurd h List.not_mem_nil
  | single a => exact absurd h List.not_mem_nil
  | pair a b l ih =>
      rcases List.mem_cons.mp h with rfl | hl
      · exact ⟨List.mem_cons_self, List.mem_cons_of_mem _ List.mem_cons_self⟩
      · rcases ih hl with ⟨hfst, hsnd⟩
        -- A later pair is in the rest of the list.
        have hlift : ∀ c ∈ l, c ∈ a :: b :: l := by
          intro c hc
          exact List.mem_cons_of_mem _ (List.mem_cons_of_mem _ hc)
        exact ⟨hlift _ hfst, hlift _ hsnd⟩

/-- What alternates does so at its first two places, also where defaults stand in
    for what is not there, and behind them. -/
theorem Alternate.headD (P Q : α → Prop) (a b : α) (ha : P a) (hb : Q b) : ∀ l : List α,
    Alternate P Q l → P (l.headD a) ∧ Q (l.tail.headD b) ∧ Alternate P Q l.tail.tail
  | [], _ => ⟨ha, hb, trivial⟩
  | [_], h => ⟨h, hb, trivial⟩
  | _ :: _ :: _, h => h

/-- `Alternate` respects implications that hold on the list. -/
theorem Alternate.imp (P Q P' Q' : α → Prop) (l : List α) (h : Alternate P Q l)
    (hP : ∀ a ∈ l, P a → P' a) (hQ : ∀ a ∈ l, Q a → Q' a) : Alternate P' Q' l := by
  induction l using pairInduction with
  | nil => exact trivial
  | single a => exact hP a List.mem_cons_self h
  | pair a b l ih =>
      simp only [List.forall_mem_cons] at hP hQ
      have hrest := ih h.2.2 hP.2.2 hQ.2.2
      exact ⟨hP.1 h.1, hQ.2.1 h.2.1, hrest⟩

/-- What alternates up to the end does up to every point before, also if this is
    between the components of a pair. -/
theorem Alternate.left (P Q : α → Prop) (l l' : List α) (h : Alternate P Q (l ++ l')) :
    Alternate P Q l := by
  induction l using pairInduction with
  | nil => exact trivial
  | single a =>
      -- What is left over here may have its partner in the part that is cut off.
      cases l' with
      | nil => exact h
      | cons b l' => exact h.1
  | pair a b l ih => exact ⟨h.1, h.2.1, ih h.2.2⟩

/-- Descriptions that agree wherever a first one holds are interchangeable. -/
theorem Alternate.congr (P Q P' Q' R S : α → Prop) (l : List α) (h : Alternate P Q l)
    (hP : ∀ a ∈ l, P a → (P' a ↔ R a)) (hQ : ∀ a ∈ l, Q a → (Q' a ↔ S a)) :
    Alternate P' Q' l ↔ Alternate R S l := by
  induction l using pairInduction with
  | nil => exact Iff.rfl
  | single a => exact hP a List.mem_cons_self h
  | pair a b l ih =>
      simp only [List.forall_mem_cons] at hP hQ
      have hrest := ih h.2.2 hP.2.2 hQ.2.2
      rw [Alternate, Alternate, hrest, hP.1 h.1, hQ.2.1 h.2.1]

/-- One description for both positions is one for all elements. -/
theorem alternate_self_iff (R : α → Prop) (l : List α) : Alternate R R l ↔ ∀ a ∈ l, R a := by
  induction l using pairInduction with
  | nil =>
      constructor
      · intro _ a ha
        exact absurd ha List.not_mem_nil
      · intro _
        exact trivial
  | single a =>
      rw [List.forall_mem_singleton]
      exact Iff.rfl
  | pair a b l ih => simp only [Alternate, ih, List.forall_mem_cons]

end Interleave
