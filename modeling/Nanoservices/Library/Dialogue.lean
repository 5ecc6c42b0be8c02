import Nanoservices.Library.Machine

/-!
# Callers of a Machine

A run takes its operations from a list, so they are fixed before the first
answer is known. A `Dialogue` is a caller that listens: after every answer it
decides what to do next, and in the end it comes to a result. It is a tree, with
the possible answers as branches, and a caller always comes to an end.

`Decides` says of a machine which operations it survives, and that it answers
these as the specification does. `Decides.exec` carries that over to callers: a
dialogue comes to its end exactly if it asks for no operation that the machine
does not survive, and then it has gone as it does with the specification.

## Main definitions

* `Dialogue`: A caller.
* `Dialogue.exec`, `Dialogue.specExec`: A dialogue with a machine, and with a
  specification.
* `Dialogue.Asks`: A property of the operations that are asked for.
* `Decides`: Which operations the machine survives.

## Theorems

* `Decides.exec`: Which dialogues it survives.
-/

universe u₁ u₂ u₃ u₄ u₅ u₆

namespace Machine

/-- A caller: it comes to a result, or it asks for an operation and goes on as
    the answer is. -/
inductive Dialogue (ω : Type u₁) (ο : Type u₂) (ρ : Type u₃)
  | done (result : ρ)
  | ask (op : ω) (next : ο → Dialogue ω ο ρ)

variable {σ : Type u₄} {τ : Type u₅} {ε : Type u₆} {ω : Type u₁} {ο : Type u₂} {ρ : Type u₃}

namespace Dialogue

/-- The dialogue with a machine. A fault ends it, without a result. -/
def exec (step : σ → ω → Except ε (σ × ο)) : Dialogue ω ο ρ → σ → Except ε (σ × ρ)
  | done result, s => .ok (s, result)
  | ask op next, s => match step s op with
    | .error e => .error e
    | .ok (s', o) => (next o).exec step s'

/-- The dialogue with a specification, which answers every operation. -/
def specExec (spec : τ → ω → τ × ο) : Dialogue ω ο ρ → τ → τ × ρ
  | done result, t => (t, result)
  | ask op next, t => (next (spec t op).2).specExec spec (spec t op).1

/-- Every operation that is asked for has the property, in the state in which it
    is asked for. Which operations these are depends on the answers. -/
def Asks (spec : τ → ω → τ × ο) (P : τ → ω → Prop) : Dialogue ω ο ρ → τ → Prop
  | done _, _ => True
  | ask op next, t => P t op ∧ (next (spec t op).2).Asks spec P (spec t op).1

end Dialogue

/-- Of the operations that the caller may issue, the machine survives those that
    are fine, and no other. What it survives it answers as specified, and it is
    left in a related state. -/
def Decides (step : σ → ω → Except ε (σ × ο)) (spec : τ → ω → τ × ο) (may fine : τ → ω → Prop)
    (R : σ → τ → Prop) : Prop :=
  ∀ s t op, R s t → may t op →
    (fine t op ∧ ∃ s', step s op = .ok (s', (spec t op).2) ∧ R s' (spec t op).1) ∨
      (¬ fine t op ∧ ∃ e, step s op = .error e)

/-- A machine survives the dialogues in which all operations that are asked for
    are fine, and no other; and these go as with the specification. -/
theorem Decides.exec {step : σ → ω → Except ε (σ × ο)} {spec : τ → ω → τ × ο}
    {may fine : τ → ω → Prop} {R : σ → τ → Prop} (hdecides : Decides step spec may fine R)
    (d : Dialogue ω ο ρ) (s : σ) (t : τ) (hR : R s t) (hmay : d.Asks spec may t) :
    (d.Asks spec fine t ∧ ∃ s', d.exec step s = .ok (s', (d.specExec spec t).2) ∧
        R s' (d.specExec spec t).1) ∨
      (¬ d.Asks spec fine t ∧ ∃ e, d.exec step s = .error e) := by
  -- The induction is on the caller, which goes on with what it is told.
  induction d generalizing s t with
  | done result => exact Or.inl ⟨trivial, s, rfl, hR⟩
  | ask op next ih =>
      rw [Dialogue.Asks] at hmay
      rw [Dialogue.Asks, Dialogue.exec, Dialogue.specExec]
      rcases hdecides s t op hR hmay.1 with ⟨hfine, s', hstep, hR'⟩ | ⟨hfine, e, hstep⟩
      · rw [hstep]
        rcases ih _ s' _ hR' hmay.2 with ⟨hrest, hok⟩ | ⟨hrest, herror⟩
        · exact Or.inl ⟨⟨hfine, hrest⟩, hok⟩
        · exact Or.inr ⟨fun h => hrest h.2, herror⟩
      · -- What comes after a fault does not matter.
        rw [hstep]
        exact Or.inr ⟨fun h => hfine h.1, e, rfl⟩

end Machine
