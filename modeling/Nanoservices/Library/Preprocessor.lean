import Mathlib.Data.List.Forall2
import Mathlib.Data.Set.Insert

/-!
# Macro Expansion

The C preprocessor on token sequences, for macros without `#` and `##`.

A name may not be expanded inside its own expansion. The preprocessor keeps
the names whose replacement it is still in the middle of, the disabled ones,
and paints a disabled name it comes across, for good. The end of a replacement
is marked in the input with `pop`, and reading past it enables the name again.
The arguments of a call may lie past the end of the replacement that wrote the
name, so both the search for the parenthesis and the reading of the arguments
can pop.

Arguments are expanded on their own before they are substituted, in the state
in which the call ends, and the result of the substitution is scanned again
together with what follows.

`scan` takes a budget, since each replacement is scanned in turn and no measure
of the input goes down. `Expands` says that some budget is enough. Facts about
pieces of the input are stated with `Emits`, which holds whatever follows the
piece, and so composes.

## Main definitions

* `Token`, `Macro`, `Item`: Tokens, definitions, and tokens under expansion.
* `takeCall`, `splitArgs`, `bindArgs`: Reading the arguments of a call.
* `action`: What a token at the front of the input calls for.
* `scan`: The expansion of an input.
* `Expands`: The expansion, with some budget.
* `Emits`: The expansion of a piece of the input.

## Theorems

* `scan_mono`: A larger budget gives the same expansion.
* `Expands.unique`: There is one expansion.
* `Expands.pop`, `Expands.emit`, `Expands.replace`: The three kinds of steps.
* `Emits.append`: Pieces of the input are expanded one after the other.
* `Emits.self`: Tokens that nothing is to be done with.
-/

namespace Preprocessor

/-- A token. A name that is painted is not expanded any more. -/
inductive Token (ν τ : Type)
  | name (n : ν) (painted : Bool)
  | lparen
  | rparen
  | comma
  | other (t : τ)
deriving DecidableEq

/-- A part of a replacement list: a token, or a parameter by its position. -/
inductive Part (ν τ : Type)
  | lit (t : Token ν τ)
  | param (i : Nat)

/-- The parameters of a function-like macro. With `...`, the arguments after
    the named ones make up one more. -/
structure Params where
  named : Nat
  variadic : Bool

/-- A macro definition. Without parameters it is object-like. -/
structure Macro (ν τ : Type) where
  params : Option Params
  body : List (Part ν τ)

/-- A token under expansion, or the end of the replacement of a name. -/
inductive Item (ν τ : Type)
  | tok (t : Token ν τ)
  | pop (n : ν)

variable {ν τ : Type}

/-- Tokens to be expanded, with no replacement that ends among them. -/
def toItems (ts : List (Token ν τ)) : List (Item ν τ) := ts.map .tok

@[simp] theorem toItems_nil : toItems ([] : List (Token ν τ)) = [] := rfl

@[simp] theorem toItems_cons (t : Token ν τ) (ts : List (Token ν τ)) :
    toItems (t :: ts) = .tok t :: toItems ts := rfl

@[simp] theorem toItems_append (ts us : List (Token ν τ)) :
    toItems (ts ++ us) = toItems ts ++ toItems us := List.map_append

/-! ### Reading a call -/

/-- Split at the commas outside of parentheses, from the given depth on. Of no
    tokens there is one piece, an empty one. -/
def splitArgs : Nat → List (Token ν τ) → List (List (Token ν τ))
  | _, [] => [[]]
  | 0, .comma :: ts => [] :: splitArgs 0 ts
  | d, .lparen :: ts => (splitArgs (d + 1) ts).modifyHead (.lparen :: ·)
  | d, .rparen :: ts => (splitArgs (d - 1) ts).modifyHead (.rparen :: ·)
  | d, t :: ts => (splitArgs d ts).modifyHead (t :: ·)

/-- Put the commas back, as in `__VA_ARGS__`. -/
def joinArgs (args : List (List (Token ν τ))) : List (Token ν τ) :=
  [Token.comma].intercalate args

/-- The arguments for the parameters, or that their number is wrong. All pieces
    behind the named arguments of a variadic macro are one argument. -/
def bindArgs (params : Params) (pieces : List (List (Token ν τ))) :
    Option (List (List (Token ν τ))) :=
  if params.variadic then
    if params.named ≤ pieces.length then
      some (pieces.take params.named ++ [joinArgs (pieces.drop params.named)])
    else none
  else if pieces.length = params.named then some pieces
  else match params.named, pieces with
    -- A macro without parameters is called with one empty piece.
    | 0, [[]] => some []
    | _, _ => none

/-- Put the arguments in the place of the parameters. A parameter that has no
    argument is replaced by nothing. -/
def substitute (body : List (Part ν τ)) (args : List (List (Token ν τ))) : List (Token ν τ) :=
  body.flatMap fun
    | .lit t => [t]
    | .param i => args.getD i []

variable [DecidableEq ν]

/-- Paint a name that is disabled; it will not be expanded any more. -/
def paint (D : List ν) : Token ν τ → Token ν τ
  | .name n painted => .name n (painted || decide (n ∈ D))
  | t => t

/-- Read past the parenthesis that opens a call, if there is one. Replacements
    that end in front of it enable their names again. -/
def openParen (D : List ν) : List (Item ν τ) → Option (List ν × List (Item ν τ))
  | .pop n :: rest => openParen (D.erase n) rest
  | .tok .lparen :: rest => some (D, rest)
  | _ => none

/-- Read the tokens of a call up to the parenthesis that closes it, at the given
    depth of parentheses. What is read may be the end of a replacement, and goes
    on in what follows it. -/
def takeCall : Nat → List ν → List (Item ν τ) →
    Option (List (Token ν τ) × List ν × List (Item ν τ))
  | _, _, [] => none
  | d, D, .pop n :: rest => takeCall d (D.erase n) rest
  | 0, D, .tok .rparen :: rest => some ([], D, rest)
  | d + 1, D, .tok .rparen :: rest => (takeCall d D rest).map fun c => (.rparen :: c.1, c.2)
  | d, D, .tok .lparen :: rest => (takeCall (d + 1) D rest).map fun c => (.lparen :: c.1, c.2)
  | d, D, .tok t :: rest => (takeCall d D rest).map fun c => (paint D t :: c.1, c.2)

/-- What a token at the front of the input calls for. -/
inductive Action (ν τ : Type)
  /-- The token is output. -/
  | emit (t : Token ν τ)
  /-- The macro is replaced, with these arguments, in front of this input. -/
  | replace (n : ν) (body : List (Part ν τ)) (args : List (List (Token ν τ))) (D : List ν)
      (rest : List (Item ν τ))
  /-- The call has no end or a wrong number of arguments. -/
  | malformed

/-- What a token at the front of an input calls for, when the names in `D` are
    disabled. -/
def action (macros : ν → Option (Macro ν τ)) (D : List ν) (rest : List (Item ν τ)) :
    Token ν τ → Action ν τ
  | .name n false =>
    if n ∈ D then .emit (.name n true)
    else match macros n with
      | none => .emit (.name n false)
      | some ⟨none, body⟩ => .replace n body [] D rest
      | some ⟨some params, body⟩ => match openParen D rest with
        -- The name of a function-like macro on its own.
        | none => .emit (.name n false)
        | some (D', inside) => match takeCall 0 D' inside with
          | none => .malformed
          | some (call, D'', rest') => match bindArgs params (splitArgs 0 call) with
            | none => .malformed
            | some args => .replace n body args D'' rest'
  | t => .emit t

/-- Expand each argument on its own, as if it were all of the input. -/
def expandArgs (expand : List (Token ν τ) → Option (List (Token ν τ))) :
    List (List (Token ν τ)) → Option (List (List (Token ν τ)))
  | [] => some []
  | arg :: args => match expand arg with
    | none => none
    | some e => (expandArgs expand args).map (e :: ·)

/-- Expand an input with a budget, in a state in which some names are disabled.
    A replacement is put in front of the rest of the input, with a mark where it
    ends, and is scanned again. -/
def scan (macros : ν → Option (Macro ν τ)) : Nat → List ν → List (Item ν τ) →
    Option (List (Token ν τ))
  | 0, _, _ => none
  | _ + 1, _, [] => some []
  | k + 1, D, .pop n :: rest => scan macros k (D.erase n) rest
  | k + 1, D, .tok t :: rest => match action macros D rest t with
    | .emit t' => (scan macros k D rest).map (t' :: ·)
    | .malformed => none
    | .replace n body args D' rest' =>
      match expandArgs (fun arg => scan macros k D' (toItems arg)) args with
      | none => none
      | some expanded =>
        scan macros k (n :: D') (toItems (substitute body expanded) ++ .pop n :: rest')

/-- Some budget is enough to expand the input, and this is what comes out. -/
def Expands (macros : ν → Option (Macro ν τ)) (D : List ν) (items : List (Item ν τ))
    (out : List (Token ν τ)) : Prop :=
  ∃ k, scan macros k D items = some out

/-- The expansion of a piece of the input, whatever follows it. It does not end
    any replacement that it has not begun. -/
def Emits (macros : ν → Option (Macro ν τ)) (D : List ν) (ts us : List (Token ν τ)) : Prop :=
  ∀ tail out, Expands macros D tail out → Expands macros D (toItems ts ++ tail) (us ++ out)

/-! ### The budget -/

omit [DecidableEq ν] in
/-- If one way to expand an argument gives all that another does, it gives the
    same for a list of arguments. -/
theorem expandArgs_mono (f g : List (Token ν τ) → Option (List (Token ν τ)))
    (hfg : ∀ arg e, f arg = some e → g arg = some e) (args es : List (List (Token ν τ)))
    (h : expandArgs f args = some es) : expandArgs g args = some es := by
  induction args generalizing es with
  | nil => exact h
  | cons arg args ih =>
      simp only [expandArgs] at h ⊢
      -- Where the first way gives nothing, there is nothing to show.
      cases he : f arg with
      | none => rw [he] at h; exact absurd h (by simp only [reduceCtorEq, not_false_eq_true])
      | some e =>
          rw [he] at h
          rw [hfg arg e he]
          rcases Option.map_eq_some_iff.mp h with ⟨es', hes', hcons⟩
          exact Option.map_eq_some_iff.mpr ⟨es', ih es' hes', hcons⟩

/-- A larger budget gives the same expansion, if the smaller one was enough for
    any. -/
theorem scan_mono (macros : ν → Option (Macro ν τ)) (k : Nat) (D : List ν)
    (items : List (Item ν τ)) (out : List (Token ν τ)) (h : scan macros k D items = some out) :
    scan macros (k + 1) D items = some out := by
  induction k generalizing D items out with
  | zero => exact absurd h (by simp only [scan, reduceCtorEq, not_false_eq_true])
  | succ k ih =>
      -- The cases are those of the definition. Every call in them has the smaller
      -- budget.
      cases items with
      | nil => exact h
      | cons item rest =>
          cases item with
          | pop n => exact ih _ _ _ h
          | tok t =>
              rw [scan] at h ⊢
              cases ha : action macros D rest t with
              | emit t' =>
                  rw [ha] at h
                  rcases Option.map_eq_some_iff.mp h with ⟨out', hout, hcons⟩
                  exact Option.map_eq_some_iff.mpr ⟨out', ih _ _ _ hout, hcons⟩
              | malformed => rw [ha] at h; exact h
              | replace n body args D' rest' =>
                  rw [ha] at h
                  simp only at h ⊢
                  cases he : expandArgs (fun arg => scan macros k D' (toItems arg)) args with
                  | none =>
                      rw [he] at h
                      exact absurd h (by simp only [reduceCtorEq, not_false_eq_true])
                  | some es =>
                      rw [he] at h
                      -- The arguments are scanned with the
                      -- smaller budget as well.
                      rw [expandArgs_mono _ _ (fun arg e => ih D' (toItems arg) e) args es he]
                      exact ih _ _ _ h

/-- So does any larger budget. -/
theorem scan_le (macros : ν → Option (Macro ν τ)) (j k : Nat) (hjk : j ≤ k) (D : List ν)
    (items : List (Item ν τ)) (out : List (Token ν τ)) (h : scan macros j D items = some out) :
    scan macros k D items = some out := by
  induction hjk with
  | refl => exact h
  | step _ ih => exact scan_mono macros _ D items out ih

/-- One budget is enough for a list of arguments, if each of them has one. -/
theorem expandArgs_of_expands (macros : ν → Option (Macro ν τ)) (D : List ν)
    (args es : List (List (Token ν τ)))
    (h : List.Forall₂ (fun arg e => Expands macros D (toItems arg) e) args es) :
    ∃ k, expandArgs (fun arg => scan macros k D (toItems arg)) args = some es := by
  induction h with
  | nil => exact ⟨0, rfl⟩
  | @cons arg e args es harg _ ih =>
      -- The larger of the two budgets will do for both.
      rcases harg with ⟨j, hj⟩
      rcases ih with ⟨k, hk⟩
      refine ⟨max j k, ?_⟩
      have he := scan_le macros j _ (Nat.le_max_left j k) D _ _ hj
      have hes := expandArgs_mono _ _
        (fun a b => scan_le macros k _ (Nat.le_max_right j k) D (toItems a) b) args es hk
      simp only [expandArgs, he, hes, Option.map_some]

section Rules

variable {macros : ν → Option (Macro ν τ)} {D : List ν}

namespace Expands

/-- There is one expansion, since the larger of two budgets gives both. -/
theorem unique {items : List (Item ν τ)} {out out' : List (Token ν τ)}
    (h : Expands macros D items out) (h' : Expands macros D items out') : out = out' := by
  rcases h with ⟨j, hj⟩
  rcases h' with ⟨k, hk⟩
  have hj' := scan_le macros j _ (Nat.le_max_left j k) D items out hj
  have hk' := scan_le macros k _ (Nat.le_max_right j k) D items out' hk
  exact Option.some.inj (hj'.symm.trans hk')

theorem nil : Expands macros D [] [] := ⟨1, rfl⟩

/-- At the end of a replacement, its name is enabled again. -/
theorem pop {n : ν} {rest : List (Item ν τ)} {out : List (Token ν τ)}
    (h : Expands macros (D.erase n) rest out) : Expands macros D (.pop n :: rest) out := by
  rcases h with ⟨k, hk⟩
  exact ⟨k + 1, hk⟩

/-- A token is output, and the rest of the input is expanded. -/
theorem emit {t t' : Token ν τ} {rest : List (Item ν τ)} {out : List (Token ν τ)}
    (ha : action macros D rest t = .emit t') (h : Expands macros D rest out) :
    Expands macros D (.tok t :: rest) (t' :: out) := by
  rcases h with ⟨k, hk⟩
  refine ⟨k + 1, ?_⟩
  rw [scan, ha]
  simp only [hk, Option.map_some]

/-- A macro is replaced: its arguments are expanded, put in the place of the
    parameters, and scanned with the rest of the input. -/
theorem replace {t : Token ν τ} {rest rest' : List (Item ν τ)} {n : ν} {body : List (Part ν τ)}
    {args es : List (List (Token ν τ))} {D' : List ν} {out : List (Token ν τ)}
    (ha : action macros D rest t = .replace n body args D' rest')
    (hargs : List.Forall₂ (fun arg e => Expands macros D' (toItems arg) e) args es)
    (h : Expands macros (n :: D') (toItems (substitute body es) ++ .pop n :: rest') out) :
    Expands macros D (.tok t :: rest) out := by
  rcases h with ⟨j, hj⟩
  rcases expandArgs_of_expands macros D' args es hargs with ⟨k, hk⟩
  refine ⟨max j k + 1, ?_⟩
  rw [scan, ha]
  -- The larger budget is enough for the arguments and for the replacement.
  simp only [expandArgs_mono _ _
    (fun a b => scan_le macros k _ (Nat.le_max_right j k) D' (toItems a) b) args es hk]
  exact scan_le macros j _ (Nat.le_max_left j k) _ _ _ hj

end Expands

namespace Emits

theorem nil : Emits macros D [] [] := fun _ _ h => h

/-- Pieces of the input are expanded one after the other. -/
theorem append {ts us ts' us' : List (Token ν τ)} (h : Emits macros D ts us)
    (h' : Emits macros D ts' us') : Emits macros D (ts ++ ts') (us ++ us') := by
  intro tail out ho
  rw [toItems_append, List.append_assoc, List.append_assoc]
  exact h _ _ (h' tail out ho)

/-- A piece on its own is expanded to what it emits. -/
theorem expands {ts us : List (Token ν τ)} (h : Emits macros D ts us) :
    Expands macros D (toItems ts) us := by
  have h' := h [] [] Expands.nil
  rwa [List.append_nil, List.append_nil] at h'

/-- A token that is output as it is, whatever follows. -/
theorem single {t : Token ν τ} (ha : ∀ rest, action macros D rest t = .emit t) :
    Emits macros D [t] [t] :=
  fun tail _ ho => Expands.emit (ha tail) ho

/-- Tokens that are output as they are, one after the other. -/
theorem self {ts : List (Token ν τ)} (h : ∀ t ∈ ts, ∀ rest, action macros D rest t = .emit t) :
    Emits macros D ts ts := by
  induction ts with
  | nil => exact nil
  | cons t ts ih =>
      rcases List.forall_mem_cons.mp h with ⟨ht, hts⟩
      exact (single ht).append (ih hts)

end Emits

end Rules

end Preprocessor
