import Nanoservices.Library.Preprocessor

/-!
# Expanding Calls

The rules for calls of function-like macros, over `Expands` and `Emits`. A
call's tokens are balanced in their parentheses, so the call extends to the
parenthesis that matches (`takeCall_balanced`), and an argument has no comma
outside of parentheses, so it extends to the next one (`splitArgs_cons`).

A macro whose replacement is its own argument makes the preprocessor expand
that argument once more, and macros that apply one another multiply this.
`Rescans` counts it for an input that every expansion takes one step further.

## Main definitions

* `Balanced`, `Argument`: Tokens that end no call, and those that end no
  argument of one.
* `Enabled`: No token is a disabled name.
* `call`: A call written out.
* `Rescans`: A macro that takes its argument a number of expansions further.

## Theorems

* `takeCall_balanced`: A call extends to the parenthesis that matches.
* `splitArgs_cons`, `splitArgs_last`: An argument extends to the comma.
* `splitArgs_joinArgs`, `joinArgs_splitArgs`: Splitting undoes joining, and
  loses nothing.
* `Expands.called`, `Emits.called`: Expanding a call.
* `Emits.apart`: The name of a function-like macro that is not called.
* `Rescans.identity`, `Rescans.triple`: A macro that expands its argument once
  more, and one that applies another three times.
-/

namespace Preprocessor

variable {ν τ : Type}

/-- Tokens in which the parentheses match: no call is ended inside of them. -/
inductive Balanced : List (Token ν τ) → Prop
  | nil : Balanced []
  | atom (t : Token ν τ) (hl : t ≠ .lparen) (hr : t ≠ .rparen) : Balanced [t]
  | append {ts us : List (Token ν τ)} (ht : Balanced ts) (hu : Balanced us) : Balanced (ts ++ us)
  | parens {ts : List (Token ν τ)} (ht : Balanced ts) : Balanced (.lparen :: ts ++ [.rparen])

/-- Tokens in which the parentheses match, and in which no comma is outside of
    them: neither a call nor an argument of one is ended inside of them. -/
inductive Argument : List (Token ν τ) → Prop
  | nil : Argument []
  | atom (t : Token ν τ) (hl : t ≠ .lparen) (hr : t ≠ .rparen) (hc : t ≠ .comma) : Argument [t]
  | append {ts us : List (Token ν τ)} (ht : Argument ts) (hu : Argument us) : Argument (ts ++ us)
  | parens {ts : List (Token ν τ)} (ht : Balanced ts) : Argument (.lparen :: ts ++ [.rparen])

/-- A call of a macro with these tokens between the parentheses. -/
def call (n : ν) (inside : List (Token ν τ)) : List (Token ν τ) :=
  .name n false :: .lparen :: inside ++ [.rparen]

/-- How a call is read: the name, the parenthesis, what is inside. -/
theorem toItems_call (n : ν) (inside : List (Token ν τ)) (tail : List (Item ν τ)) :
    toItems (call n inside) ++ tail =
      .tok (.name n false) :: .tok .lparen :: (toItems inside ++ .tok .rparen :: tail) := by
  rw [call, toItems_append, toItems_cons, toItems_cons, List.append_assoc]
  rfl

/-- What ends no argument ends no call. -/
theorem Argument.balanced {ts : List (Token ν τ)} (h : Argument ts) : Balanced ts := by
  induction h with
  | nil => exact .nil
  | atom t hl hr _ => exact .atom t hl hr
  | append _ _ iht ihu => exact .append iht ihu
  | parens ht => exact .parens ht

/-- A token that is no parenthesis may be put in front. -/
theorem Balanced.cons {t : Token ν τ} (hl : t ≠ .lparen) (hr : t ≠ .rparen)
    {ts : List (Token ν τ)} (h : Balanced ts) : Balanced (t :: ts) :=
  .append (.atom t hl hr) h

/-- So may one that is also no comma. -/
theorem Argument.cons {t : Token ν τ} (hl : t ≠ .lparen) (hr : t ≠ .rparen) (hc : t ≠ .comma)
    {ts : List (Token ν τ)} (h : Argument ts) : Argument (t :: ts) :=
  .append (.atom t hl hr hc) h

/-- A call is an argument, whatever commas are in it. -/
theorem Argument.call (n : ν) {inside : List (Token ν τ)} (h : Balanced inside) :
    Argument (call n inside) :=
  Argument.cons (t := .name n false) nofun nofun nofun (.parens h)

/-- Tokens without parentheses and commas are an argument. -/
theorem Argument.of_forall {ts : List (Token ν τ)}
    (h : ∀ t ∈ ts, t ≠ .lparen ∧ t ≠ .rparen ∧ t ≠ .comma) : Argument ts := by
  -- One token after another is an argument of its own.
  induction ts with
  | nil => exact .nil
  | cons t ts ih =>
      rcases List.forall_mem_cons.mp h with ⟨ht, hts⟩
      exact .cons ht.1 ht.2.1 ht.2.2 (ih hts)

/-! ### Replacement lists

That a replacement list is balanced is checked by counting, and that is enough
for what it is replaced by, when the arguments are balanced. -/

/-- The parentheses of a replacement list match, when so many are open before
    it. Parameters are passed over. -/
def closes : Nat → List (Part ν τ) → Bool
  | d, [] => d == 0
  | d, .lit .lparen :: ps => closes (d + 1) ps
  | 0, .lit .rparen :: _ => false
  | d + 1, .lit .rparen :: ps => closes d ps
  | d, _ :: ps => closes d ps

/-- Tokens that leave so many parentheses open, with balanced tokens around each
    of these. -/
inductive Opened : Nat → List (Token ν τ) → Prop
  | zero {b : List (Token ν τ)} (hb : Balanced b) : Opened 0 b
  | succ {d : Nat} {o b : List (Token ν τ)} (ho : Opened d o) (hb : Balanced b) :
      Opened (d + 1) (o ++ .lparen :: b)

/-- Balanced tokens may follow; they go to the innermost part that is open. -/
theorem Opened.append {d : Nat} {o b : List (Token ν τ)} (ho : Opened d o) (hb : Balanced b) :
    Opened d (o ++ b) := by
  cases ho with
  | zero hb' => exact .zero (.append hb' hb)
  | succ ho hb' =>
      rw [List.append_assoc]
      exact .succ ho (.append hb' hb)

/-- A parenthesis closes the innermost part. -/
theorem Opened.close {d : Nat} {o : List (Token ν τ)} (ho : Opened (d + 1) o) :
    Opened d (o ++ [.rparen]) := by
  cases ho with
  | succ ho hb =>
      rw [List.append_assoc]
      exact ho.append (.parens hb)

/-- An empty replacement list is replaced by nothing. -/
@[simp] theorem substitute_nil (args : List (List (Token ν τ))) :
    substitute ([] : List (Part ν τ)) args = [] := rfl

/-- A token of the replacement list is written as it is. -/
@[simp] theorem substitute_lit (t : Token ν τ) (ps : List (Part ν τ))
    (args : List (List (Token ν τ))) :
    substitute (.lit t :: ps) args = t :: substitute ps args := rfl

/-- A parameter is written as its argument. -/
@[simp] theorem substitute_param (i : Nat) (ps : List (Part ν τ))
    (args : List (List (Token ν τ))) :
    substitute (.param i :: ps) args = args.getD i [] ++ substitute ps args := List.flatMap_cons

/-- A replacement list is replaced part by part, from left to right. -/
theorem substitute_cons (p : Part ν τ) (ps : List (Part ν τ)) (args : List (List (Token ν τ))) :
    substitute (p :: ps) args = substitute [p] args ++ substitute ps args := by
  cases p with
  | lit t => rfl
  | param i => rw [substitute_param, substitute_param, substitute_nil, List.append_nil]

/-- An argument that is balanced stays so in the place of its parameter, and a
    parameter without an argument is replaced by nothing. -/
theorem balanced_substitute_param {args : List (List (Token ν τ))}
    (hargs : ∀ a ∈ args, Balanced a) (i : Nat) : Balanced (substitute [.param i] args) := by
  rw [substitute_param, substitute_nil, List.append_nil, List.getD_eq_getElem?_getD]
  cases hi : args[i]? with
  | none => exact .nil
  | some a => exact hargs a (List.mem_of_getElem? hi)

/-- If the parentheses of a replacement list match and the arguments are
    balanced, then so is what the list is replaced by. -/
theorem balanced_of_closes {args : List (List (Token ν τ))} (hargs : ∀ a ∈ args, Balanced a)
    (d : Nat) (ps : List (Part ν τ)) (h : closes d ps = true) {o : List (Token ν τ)}
    (ho : Opened d o) : Balanced (o ++ substitute ps args) := by
  induction d, ps using closes.induct generalizing o with
  | case1 d =>
      -- The list ends, so nothing may be open.
      cases ho with
      | zero hb => exact .append hb .nil
      | succ _ _ => exact Bool.noConfusion h
  | case2 d ps ih =>
      -- An opening parenthesis starts a part of its own.
      have h' := ih h (.succ ho .nil)
      rwa [List.append_assoc] at h'
  | case3 ps => exact Bool.noConfusion h
  | case4 d ps ih =>
      -- A closing one ends the innermost part.
      have h' := ih h ho.close
      rwa [List.append_assoc] at h'
  | case5 d p ps hl hr₀ hr ih =>
      -- Anything else is balanced in itself, and stays in its part.
      have hp : Balanced (substitute [p] args) := by
        cases p with
        | lit t =>
            have hrt : t ≠ .rparen := by
              rintro rfl
              cases d with
              | zero => exact hr₀ rfl rfl
              | succ d => exact hr d rfl rfl
            exact .atom t (fun ht => hl (congrArg Part.lit ht)) hrt
        | param i => exact balanced_substitute_param hargs i
      rw [closes] at h
      · have h' := ih h (ho.append hp)
        rwa [List.append_assoc, ← substitute_cons] at h'
      · exact hl
      · exact hr₀
      · exact hr

/-! ### Arguments -/

/-- Also of no tokens there is one argument, an empty one. -/
theorem splitArgs_ne_nil (d : Nat) (ts : List (Token ν τ)) : splitArgs d ts ≠ [] := by
  induction d, ts using splitArgs.induct with
  | case1 d => exact List.cons_ne_nil _ _
  | case2 ts _ => exact List.cons_ne_nil _ _
  -- The other tokens go to the first of the arguments.
  | case3 d ts ih => simpa only [splitArgs, ne_eq, List.modifyHead_eq_nil_iff] using ih
  | case4 d ts ih => simpa only [splitArgs, ne_eq, List.modifyHead_eq_nil_iff] using ih
  | case5 d t ts _ _ _ ih => simpa only [splitArgs, ne_eq, List.modifyHead_eq_nil_iff] using ih

/-- A token that is no parenthesis belongs to the first argument, unless it is a
    comma outside of parentheses. -/
theorem splitArgs_atom (d : Nat) (t : Token ν τ) (ts : List (Token ν τ)) (hl : t ≠ .lparen)
    (hr : t ≠ .rparen) (hc : d ≠ 0 ∨ t ≠ .comma) :
    splitArgs d (t :: ts) = (splitArgs d ts).modifyHead (t :: ·) := by
  rw [splitArgs]
  · exact hl
  · exact hr
  · exact fun hd ht => hc.elim (fun h => h hd) (fun h => h ht)

/-- Inside of parentheses the tokens of a balanced list belong to one argument,
    whatever commas are among them. -/
theorem splitArgs_balanced {b : List (Token ν τ)} (hb : Balanced b) (d : Nat)
    (ts : List (Token ν τ)) :
    splitArgs (d + 1) (b ++ ts) = (splitArgs (d + 1) ts).modifyHead (b ++ ·) := by
  induction hb generalizing d ts with
  | nil => exact (congrFun List.modifyHead_id _).symm
  | atom t hl hr => exact splitArgs_atom _ t ts hl hr (Or.inl (Nat.succ_ne_zero d))
  | append _ _ ihb ihc =>
      rw [List.append_assoc, ihb, ihc, List.modifyHead_modifyHead]
      simp only [Function.comp_def, List.append_assoc]
  -- Inside, one more parenthesis is open.
  | parens _ ih =>
      rw [List.cons_append, List.cons_append, List.append_assoc, splitArgs, ih]
      simp only [splitArgs, List.modifyHead_modifyHead, Nat.add_sub_cancel, Function.comp_def,
        List.cons_append, List.append_assoc, List.nil_append]

/-- No comma of an argument is a place to split at: all of its tokens go to the
    first of the pieces. -/
theorem splitArgs_argument {a : List (Token ν τ)} (ha : Argument a) (ts : List (Token ν τ)) :
    splitArgs 0 (a ++ ts) = (splitArgs 0 ts).modifyHead (a ++ ·) := by
  induction ha generalizing ts with
  | nil => exact (congrFun List.modifyHead_id _).symm
  | atom t hl hr hc => exact splitArgs_atom _ t ts hl hr (Or.inr hc)
  | append _ _ iha ihb =>
      rw [List.append_assoc, iha, ihb, List.modifyHead_modifyHead]
      simp only [Function.comp_def, List.append_assoc]
  | parens hb =>
      rw [List.cons_append, List.cons_append, List.append_assoc, splitArgs, splitArgs_balanced hb]
      simp only [splitArgs, List.modifyHead_modifyHead, Nat.add_sub_cancel, Function.comp_def,
        List.cons_append, List.append_assoc, List.nil_append]

/-- An argument extends to the comma behind it, where the next one begins. -/
theorem splitArgs_cons {a : List (Token ν τ)} (ha : Argument a) (ts : List (Token ν τ)) :
    splitArgs 0 (a ++ .comma :: ts) = a :: splitArgs 0 ts := by
  rw [splitArgs_argument ha, splitArgs, List.modifyHead_cons, List.append_nil]

/-- The last argument extends to the end. -/
theorem splitArgs_last {a : List (Token ν τ)} (ha : Argument a) : splitArgs 0 a = [a] := by
  have h := splitArgs_argument ha []
  rwa [List.append_nil, splitArgs, List.modifyHead_cons, List.append_nil] at h

/-- A single argument has no comma behind it. -/
@[simp] theorem joinArgs_singleton (a : List (Token ν τ)) : joinArgs [a] = a :=
  List.intercalate_singleton

/-- An argument that is not the last has a comma behind it. -/
theorem joinArgs_cons (a : List (Token ν τ)) {as : List (List (Token ν τ))} (h : as ≠ []) :
    joinArgs (a :: as) = a ++ .comma :: joinArgs as := by
  rw [joinArgs, List.intercalate_cons_of_ne_nil h, List.append_assoc]
  rfl

/-- The first of two arguments or more has a comma behind it. -/
@[simp] theorem joinArgs_cons_cons (a b : List (Token ν τ)) (as : List (List (Token ν τ))) :
    joinArgs (a :: b :: as) = a ++ .comma :: joinArgs (b :: as) :=
  joinArgs_cons a (List.cons_ne_nil b as)

/-- Joining balanced arguments gives balanced tokens, since commas do not open
    or close anything. -/
theorem Balanced.joinArgs {as : List (List (Token ν τ))} (h : ∀ a ∈ as, Balanced a) :
    Balanced (joinArgs as) := by
  induction as with
  | nil => exact .nil
  | cons a as ih =>
      rcases List.forall_mem_cons.mp h with ⟨ha, has⟩
      by_cases hnil : as = []
      · -- No comma follows the last argument.
        rwa [hnil, joinArgs_singleton]
      · rw [joinArgs_cons a hnil]
        exact .append ha (Balanced.cons (t := .comma) nofun nofun (ih has))

/-- A token of joined arguments is a comma or comes from one of them. -/
theorem mem_joinArgs {as : List (List (Token ν τ))} {t : Token ν τ} (h : t ∈ joinArgs as) :
    t = .comma ∨ ∃ a ∈ as, t ∈ a := by
  induction as with
  | nil => exact absurd h List.not_mem_nil
  | cons a as ih =>
      by_cases hnil : as = []
      · rw [hnil, joinArgs_singleton] at h
        exact .inr ⟨a, List.mem_cons_self, h⟩
      · -- In front of the comma, the comma, or behind it.
        rw [joinArgs_cons a hnil, List.mem_append, List.mem_cons] at h
        rcases h with h | h | h
        · exact .inr ⟨a, List.mem_cons_self, h⟩
        · exact .inl h
        · rcases ih h with hc | ⟨b, hb, ht⟩
          · exact .inl hc
          · exact .inr ⟨b, List.mem_cons_of_mem a hb, ht⟩

/-- Joined arguments are joined with others by one more comma. -/
theorem joinArgs_append {as bs : List (List (Token ν τ))} (ha : as ≠ []) (hb : bs ≠ []) :
    joinArgs (as ++ bs) = joinArgs as ++ .comma :: joinArgs bs := by
  induction as with
  | nil => exact absurd rfl ha
  | cons a as ih =>
      by_cases has : as = []
      · rw [has, List.singleton_append, joinArgs_cons a hb, joinArgs_singleton]
      · rw [List.cons_append, joinArgs_cons a (List.append_ne_nil_of_left_ne_nil has bs), ih has,
          joinArgs_cons a has, List.append_assoc, List.cons_append]

/-- Splitting undoes joining, for one argument or more. -/
theorem splitArgs_joinArgs {as : List (List (Token ν τ))} (h : ∀ a ∈ as, Argument a)
    (hne : as ≠ []) : splitArgs 0 (joinArgs as) = as := by
  induction as with
  | nil => exact absurd rfl hne
  | cons a as ih =>
      rcases List.forall_mem_cons.mp h with ⟨ha, has⟩
      by_cases hnil : as = []
      · rw [hnil, joinArgs_singleton, splitArgs_last ha]
      · -- The first argument extends to the comma that joining has put behind it.
        rw [joinArgs_cons a hnil, splitArgs_cons ha, ih has hnil]

/-- What is put in front of the first argument is in front of the text. -/
theorem joinArgs_modifyHead (t : Token ν τ) {as : List (List (Token ν τ))} (h : as ≠ []) :
    joinArgs (as.modifyHead (t :: ·)) = t :: joinArgs as := by
  cases as with
  | nil => exact absurd rfl h
  | cons a as =>
      by_cases has : as = []
      · rw [has, List.modifyHead_cons, joinArgs_singleton, joinArgs_singleton]
      · rw [List.modifyHead_cons, joinArgs_cons _ has, joinArgs_cons _ has, List.cons_append]

/-- Splitting loses nothing, at whatever depth it begins: joining gives the
    tokens back. -/
theorem joinArgs_splitArgs (d : Nat) (ts : List (Token ν τ)) : joinArgs (splitArgs d ts) = ts := by
  induction d, ts using splitArgs.induct with
  | case1 d => rw [splitArgs, joinArgs_singleton]
  -- The comma between two arguments comes back.
  | case2 ts ih => rw [splitArgs, joinArgs_cons _ (splitArgs_ne_nil 0 ts), ih, List.nil_append]
  | case3 d ts ih => rw [splitArgs, joinArgs_modifyHead _ (splitArgs_ne_nil _ ts), ih]
  | case4 d ts ih => rw [splitArgs, joinArgs_modifyHead _ (splitArgs_ne_nil _ ts), ih]
  | case5 d t ts hc hl hr ih =>
      rw [splitArgs, joinArgs_modifyHead _ (splitArgs_ne_nil _ ts), ih]
      · exact hl
      · exact hr
      · exact hc

/-- The arguments of a variadic macro: as many as there are names, and the
    rest of the tokens for `__VA_ARGS__`. -/
theorem bindArgs_variadic {as pieces : List (List (Token ν τ))} {ts : List (Token ν τ)}
    (hp : pieces = as ++ splitArgs 0 ts) :
    bindArgs ⟨as.length, true⟩ pieces = some (as ++ [ts]) := by
  have hlen : as.length ≤ (as ++ splitArgs 0 ts).length :=
    List.length_append ▸ Nat.le_add_right _ _
  unfold bindArgs
  -- The pieces behind the named arguments are joined with commas again.
  rw [if_pos rfl, hp, if_pos hlen, List.take_left, List.drop_left, joinArgs_splitArgs]

/-! ### Calls -/

/-- No token is a disabled name. -/
def Enabled (D : List ν) (ts : List (Token ν τ)) : Prop :=
  ∀ n, .name n false ∈ ts → n ∉ D

/-- A call is enabled if its name and its arguments are. -/
theorem enabled_call {D : List ν} {n : ν} (hn : n ∉ D) {ts : List (Token ν τ)}
    (h : Enabled D ts) : Enabled D (call n ts) := by
  intro m hm
  -- The other tokens of a call are parentheses.
  simp only [call, List.cons_append, List.mem_cons, List.mem_append, reduceCtorEq, false_or,
    Token.name.injEq, and_true, List.not_mem_nil, or_false] at hm
  rcases hm with rfl | hm
  · exact hn
  · exact h m hm

/-- Names of joined arguments are enabled if those of the arguments are; the
    commas are no names. -/
theorem enabled_joinArgs {D : List ν} {as : List (List (Token ν τ))}
    (h : ∀ a ∈ as, Enabled D a) : Enabled D (joinArgs as) := by
  intro n hn
  rcases mem_joinArgs hn with hc | ⟨a, ha, hmem⟩
  · exact absurd hc nofun
  · exact h a ha n hmem

/-- Names that are enabled stay so while another one is replaced. -/
theorem not_mem_cons_of_subset {D : List ν} {B : Set ν} {n : ν} (hn : n ∉ B)
    (hD : ∀ m ∈ B, m ∉ D) : ∀ m ∈ B, m ∉ n :: D := by
  intro m hm hmem
  rcases List.mem_cons.mp hmem with rfl | hmem
  · exact hn hm
  · exact hD m hm hmem

/-- The replacement `__VA_ARGS__` of a macro without named parameters. -/
def identityBody : List (Part ν τ) := [.param 0]

/-- The replacement `inner(inner(inner(__VA_ARGS__)))`. -/
def tripleBody (inner : ν) : List (Part ν τ) :=
  [.lit (.name inner false), .lit .lparen, .lit (.name inner false), .lit .lparen,
    .lit (.name inner false), .lit .lparen, .param 0, .lit .rparen, .lit .rparen, .lit .rparen]

/-- The argument is written back. -/
@[simp] theorem substitute_identityBody (ts : List (Token ν τ)) :
    substitute identityBody [ts] = ts := by
  rw [identityBody, substitute_param, substitute_nil, List.getD_cons_zero, List.append_nil]

/-- Three calls of the inner macro, inside each other, around the argument. -/
@[simp] theorem substitute_tripleBody (inner : ν) (ts : List (Token ν τ)) :
    substitute (tripleBody inner) [ts] = call inner (call inner (call inner ts)) := by
  -- The brackets of the appended lists are all that differs.
  simp only [tripleBody, substitute_lit, substitute_param, substitute_nil, List.getD_cons_zero,
    call, List.cons_append, List.append_assoc, List.nil_append]

variable [DecidableEq ν]

/-- Where no name is disabled, nothing is painted: the tokens of the arguments
    of a call stay as they are. -/
theorem map_paint {D : List ν} {ts : List (Token ν τ)} (h : Enabled D ts) :
    ts.map (paint D) = ts := by
  rw [List.map_congr_left, List.map_id]
  intro t ht
  -- Only a name can be painted, and only if it is disabled.
  cases t with
  | name n painted =>
      cases painted with
      | false => rw [paint, decide_eq_false (h n ht), Bool.or_false, id_eq]
      | true => rfl
  | lparen => rfl
  | rparen => rfl
  | comma => rfl
  | other t => rfl

/-- A call extends to the parenthesis that matches: balanced tokens belong to
    it, and what follows them is read as if they were not there. -/
theorem takeCall_balanced {b : List (Token ν τ)} (hb : Balanced b) (d : Nat) (D : List ν)
    (rest : List (Item ν τ)) :
    takeCall d D (toItems b ++ rest) =
      (takeCall d D rest).map fun c => (b.map (paint D) ++ c.1, c.2) := by
  induction hb generalizing d rest with
  | nil => exact Option.map_id'.symm
  | atom t hl hr =>
      cases t with
      | lparen => exact absurd rfl hl
      | rparen => exact absurd rfl hr
      | name n painted => rfl
      | comma => rfl
      | other t => rfl
  | append _ _ iht ihu =>
      rw [toItems_append, List.append_assoc, iht, ihu, Option.map_map]
      simp only [Function.comp_def, List.map_append, List.append_assoc]
  | parens _ ih =>
      -- One more is open inside, and the parenthesis behind closes it.
      rw [toItems_append, toItems_cons, List.cons_append, List.cons_append, List.append_assoc,
        takeCall, ih]
      simp only [toItems_cons, toItems_nil, List.cons_append, List.nil_append, takeCall,
        Option.map_map, Function.comp_def, List.map_cons, paint, List.map_append, List.map_nil,
        List.append_assoc]

/-- Reading a call whose tokens follow the parenthesis, up to the one that
    closes it. -/
theorem takeCall_call {b : List (Token ν τ)} (hb : Balanced b) {D : List ν} (he : Enabled D b)
    (rest : List (Item ν τ)) :
    takeCall 0 D (toItems b ++ .tok .rparen :: rest) = some (b, D, rest) := by
  rw [takeCall_balanced hb, takeCall, Option.map_some, map_paint he, List.append_nil]

section Rules

variable {macros : ν → Option (Macro ν τ)} {D : List ν}

/-- A name that is no macro is output. -/
theorem action_plain {n : ν} (hD : n ∉ D) (hm : macros n = none) (rest : List (Item ν τ)) :
    action macros D rest (.name n false) = .emit (.name n false) := by
  rw [action, if_neg hD, hm]

/-- A macro without parameters is replaced, whatever follows it. -/
theorem action_object {n : ν} (hD : n ∉ D) {body : List (Part ν τ)}
    (hm : macros n = some ⟨none, body⟩) (rest : List (Item ν τ)) :
    action macros D rest (.name n false) = .replace n body [] D rest := by
  rw [action, if_neg hD, hm]

/-- The name of a function-like macro with no parenthesis behind it is output. -/
theorem action_alone {n : ν} (hD : n ∉ D) {params : Params} {body : List (Part ν τ)}
    (hm : macros n = some ⟨some params, body⟩) {rest : List (Item ν τ)}
    (ho : openParen D rest = none) :
    action macros D rest (.name n false) = .emit (.name n false) := by
  rw [action, if_neg hD, hm]
  simp only [ho]

/-- The name of a function-like macro in front of its arguments is replaced,
    provided that there are as many of these as it takes. -/
theorem action_call {n : ν} (hD : n ∉ D) {params : Params} {body : List (Part ν τ)}
    (hm : macros n = some ⟨some params, body⟩) {rest rest' : List (Item ν τ)} {D' : List ν}
    {inside : List (Token ν τ)}
    (ho : openParen D rest = some (D', toItems inside ++ .tok .rparen :: rest'))
    (hb : Balanced inside) (he : Enabled D' inside) {args : List (List (Token ν τ))}
    (hargs : bindArgs params (splitArgs 0 inside) = some args) :
    action macros D rest (.name n false) = .replace n body args D' rest' := by
  rw [action, if_neg hD, hm]
  -- The parenthesis is there, the call is complete, and its arguments fit.
  simp only [ho, takeCall_call hb he, hargs]

/-- A call, possibly of a name that the replacement before it wrote. -/
theorem Expands.called {n : ν} (hD : n ∉ D) {params : Params} {body : List (Part ν τ)}
    (hm : macros n = some ⟨some params, body⟩) {rest rest' : List (Item ν τ)} {D' : List ν}
    {inside : List (Token ν τ)}
    (ho : openParen D rest = some (D', toItems inside ++ .tok .rparen :: rest'))
    (hb : Balanced inside) (he : Enabled D' inside) {args es : List (List (Token ν τ))}
    (hargs : bindArgs params (splitArgs 0 inside) = some args)
    (hes : List.Forall₂ (fun arg e => Expands macros D' (toItems arg) e) args es)
    {out : List (Token ν τ)}
    (h : Expands macros (n :: D') (toItems (substitute body es) ++ .pop n :: rest') out) :
    Expands macros D (.tok (.name n false) :: rest) out :=
  .replace (action_call hD hm ho hb he hargs) hes h

/-- What a replacement emits, it emits in front of what follows it. -/
theorem Expands.replaced {n : ν} {ts us : List (Token ν τ)} (h : Emits macros (n :: D) ts us)
    {rest : List (Item ν τ)} {out : List (Token ν τ)} (hr : Expands macros D rest out) :
    Expands macros (n :: D) (toItems ts ++ .pop n :: rest) (us ++ out) :=
  h _ _ (.pop (by rwa [List.erase_cons_head]))

namespace Emits

/-- A call with everything that belongs to it: what its replacement emits, the
    call emits. -/
theorem called {n : ν} (hD : n ∉ D) {params : Params} {body : List (Part ν τ)}
    (hm : macros n = some ⟨some params, body⟩) {inside : List (Token ν τ)}
    (hb : Balanced inside) (he : Enabled D inside) {args es : List (List (Token ν τ))}
    (hargs : bindArgs params (splitArgs 0 inside) = some args)
    (hes : List.Forall₂ (fun arg e => Expands macros D (toItems arg) e) args es)
    {us : List (Token ν τ)} (h : Emits macros (n :: D) (substitute body es) us) :
    Emits macros D (call n inside) us := by
  intro tail out ho
  rw [toItems_call]
  exact .called hD hm rfl hb he hargs hes (.replaced h ho)

/-- A call with as many arguments as there are parameters, each of which is
    expanded before it is put in. -/
theorem called_args {n : ν} (as : List (List (Token ν τ))) {es : List (List (Token ν τ))}
    (hD : n ∉ D) {body : List (Part ν τ)} (hm : macros n = some ⟨some ⟨as.length, false⟩, body⟩)
    (hne : as ≠ []) (ha : ∀ a ∈ as, Argument a) (he : ∀ a ∈ as, Enabled D a)
    (hes : List.Forall₂ (fun arg e => Expands macros D (toItems arg) e) as es)
    {us : List (Token ν τ)} (h : Emits macros (n :: D) (substitute body es) us) :
    Emits macros D (call n (joinArgs as)) us := by
  refine .called hD hm (.joinArgs fun a h => (ha a h).balanced) (enabled_joinArgs he) ?_ hes h
  -- The arguments that are found are those that were joined.
  rw [splitArgs_joinArgs ha hne]
  unfold bindArgs
  rw [if_neg Bool.false_ne_true, if_pos rfl]

/-- A call of a variadic macro: the first arguments for its parameters, and
    `bs`, joined again, in the place of the `...`. -/
theorem called_variadic {n : ν} (as bs : List (List (Token ν τ)))
    {es : List (List (Token ν τ))} (hD : n ∉ D) {body : List (Part ν τ)}
    (hm : macros n = some ⟨some ⟨as.length, true⟩, body⟩)
    (hne : bs ≠ []) (ha : ∀ a ∈ as ++ bs, Argument a) (he : ∀ a ∈ as ++ bs, Enabled D a)
    (hes : List.Forall₂ (fun arg e => Expands macros D (toItems arg) e) (as ++ [joinArgs bs]) es)
    {us : List (Token ν τ)} (h : Emits macros (n :: D) (substitute body es) us) :
    Emits macros D (call n (joinArgs (as ++ bs))) us := by
  refine .called hD hm (.joinArgs fun a h => (ha a h).balanced) (enabled_joinArgs he) ?_ hes h
  -- Splitting finds the arguments for the parameters, and those of the rest.
  refine bindArgs_variadic ?_
  rw [splitArgs_joinArgs ha (List.append_ne_nil_of_right_ne_nil as hne),
    splitArgs_joinArgs (fun b hb => ha b (List.mem_append_right as hb)) hne]

/-- An object-like macro emits what its replacement list does. -/
theorem object {n : ν} (hD : n ∉ D) {body : List (Part ν τ)}
    (hm : macros n = some ⟨none, body⟩) {us : List (Token ν τ)}
    (h : Emits macros (n :: D) (substitute body []) us) : Emits macros D [.name n false] us :=
  fun tail _ ho => .replace (action_object hD hm (toItems [] ++ tail)) .nil (.replaced h ho)

/-- The name of a function-like macro is output as it is when no parenthesis
    follows it. -/
theorem apart {n : ν} (hD : n ∉ D) {params : Params} {body : List (Part ν τ)}
    (hm : macros n = some ⟨some params, body⟩) {t : Token ν τ} (hl : t ≠ .lparen)
    {ts us : List (Token ν τ)} (h : Emits macros D (t :: ts) us) :
    Emits macros D (.name n false :: t :: ts) (.name n false :: us) := by
  intro tail out ho
  refine .emit (action_alone hD hm ?_) (h tail out ho)
  -- The next token is no parenthesis, so none is found behind the name.
  cases t with
  | lparen => exact absurd rfl hl
  | name m painted => rfl
  | rparen => rfl
  | comma => rfl
  | other t => rfl

end Emits

end Rules

/-! ### Expanding again -/

section Rescanning

/-- Tokens that every expansion takes one stage further, as long as the names
    in `B` are enabled. -/
structure Stages (macros : ν → Option (Macro ν τ)) (B : Set ν) (stage : Nat → List (Token ν τ)) :
    Prop where
  balanced : ∀ j, Balanced (stage j)
  names : ∀ j n, .name n false ∈ stage j → n ∈ B
  step : ∀ D j, (∀ m ∈ B, m ∉ D) → Emits macros D (stage j) (stage (j + 1))

/-- A macro that takes its argument `e` stages further than the expansion of
    the argument does. -/
def Rescans (macros : ν → Option (Macro ν τ)) (B : Set ν) (stage : Nat → List (Token ν τ)) (n : ν)
    (e : Nat) : Prop :=
  ∀ D X j, n ∉ D → (∀ m ∈ B, m ∉ D) → Balanced X → Enabled D X →
    Expands macros D (toItems X) (stage j) → Emits macros D (call n X) (stage (j + e))

variable {macros : ν → Option (Macro ν τ)} {B : Set ν} {stage : Nat → List (Token ν τ)}

/-- More names may be asked to be enabled. -/
theorem Stages.mono {B' : Set ν} (hB : B ⊆ B') (h : Stages macros B stage) :
    Stages macros B' stage where
  balanced := h.balanced
  names j n hn := hB (h.names j n hn)
  step D j hD := h.step D j fun m hm => hD m (hB hm)

/-- The names that occur in a stage are among those that are enabled. -/
theorem Stages.enabled (h : Stages macros B stage) {D : List ν} (hD : ∀ m ∈ B, m ∉ D) (j : Nat) :
    Enabled D (stage j) :=
  fun n hn => hD n (h.names j n hn)

namespace Rescans

/-- A macro that writes its argument back expands it once more. -/
theorem identity (hs : Stages macros B stage) {n : ν} (hn : n ∉ B)
    (hm : macros n = some ⟨some ⟨0, true⟩, identityBody⟩) : Rescans macros B stage n 1 := by
  intro D X j hnD hBD hX heX hexp
  -- The argument is expanded when it is put in, and again with the replacement.
  refine .called hnD hm hX heX (bindArgs_variadic (List.nil_append _).symm)
    (.cons hexp .nil) ?_
  rw [substitute_identityBody]
  exact hs.step _ j (not_mem_cons_of_subset hn hBD)

/-- A macro that applies another three times, each call inside the next. Its own
    argument is expanded once, and the three calls add what each of them does. -/
theorem triple (hs : Stages macros B stage) {inner n : ν} {e : Nat}
    (hinner : Rescans macros B stage inner e) (hn : n ∉ insert inner B)
    (hm : macros n = some ⟨some ⟨0, true⟩, tripleBody inner⟩) :
    Rescans macros (insert inner B) stage n (1 + 3 * e) := by
  intro D X j hnD hBD hX heX hexp
  refine .called hnD hm hX heX (bindArgs_variadic (List.nil_append _).symm)
    (.cons hexp .nil) ?_
  rw [substitute_tripleBody]
  have hBD' := not_mem_cons_of_subset hn hBD
  have hinnerD : inner ∉ n :: D := hBD' inner (Set.mem_insert _ _)
  have hB : ∀ m ∈ B, m ∉ n :: D := fun m hm => hBD' m (Set.mem_insert_of_mem _ hm)
  have hb : ∀ {ts : List (Token ν τ)}, Balanced ts → Balanced (call inner ts) :=
    fun h => (Argument.call inner h).balanced
  have he : ∀ {ts : List (Token ν τ)}, Enabled (n :: D) ts → Enabled (n :: D) (call inner ts) :=
    enabled_call hinnerD
  have hb₀ := hs.balanced j
  have he₀ := hs.enabled hB j
  -- The argument is one stage further here, and each call adds its own.
  have h₁ := hinner _ _ _ hinnerD hB hb₀ he₀ (hs.step _ j hB).expands
  have h₂ := hinner _ _ _ hinnerD hB (hb hb₀) (he he₀) h₁.expands
  have h₃ := hinner _ _ _ hinnerD hB (hb (hb hb₀)) (he (he he₀)) h₂.expands
  have hsum : j + (1 + 3 * e) = j + 1 + e + e + e := by omega
  rw [hsum]
  exact h₃

end Rescans

end Rescanning

end Preprocessor
