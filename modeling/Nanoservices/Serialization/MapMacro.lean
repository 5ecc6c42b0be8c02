import Nanoservices.Core.Bytes
import Nanoservices.Library.Expansion

/-!
# The Map Macro

The macros of `do_foreach.h`, through which `NANOSERVICES2_MAKE_SERIALIZABLE`
writes one clause for each member.

A macro cannot call itself. `__MAP_H_MAP0` and `__MAP_H_MAP1` write calls of
each other instead, held back by `__MAP_H_MAP_OUT` until the next time the text
is expanded, and `__MAP_H_EVAL` expands the text over and over. The end of the
list is found by writing `__MAP_H_MAP_GET_END` in front of the next item. An
item does not complete the call, the marker `()()()` does, and turns one
argument into two, which moves `__MAP_H_MAP_END` into the place of the next
step.

An expansion takes the text one item further, and how many there are is the
recurrence of the `__MAP_H_EVAL` macros: 364 of them, after the one in which
the argument is expanded. One is needed for the end, so 364 items are mapped.
The next one leaves a call behind.

## Main definitions

* `Name`: The names of the macros, and other identifiers.
* `macros`: The definitions, over those of the program.
* `Clause`: What is asked of the macro that is mapped.
* `stage`: The text after a number of expansions.
* `Ready`, `Searching`: What is enabled while the end is searched for.
* `doForeach`: A call of `DO_FOREACH`.

## Theorems

* `emits_next_item`, `emits_next_end`: The search for the end.
* `emits_map`: One item.
* `stages`: One expansion takes the text one stage further.
* `rescans_eval`: How many expansions there are.
* `doForeach_stage`: What `DO_FOREACH` leaves.
* `doForeach_left`: What it leaves of longer lists.
* `doForeach_iff`: It maps lists of up to 364 items.
-/

namespace Nanoservices

namespace MapMacro

open Preprocessor

/-- The macros of `do_foreach.h`, without those of `DO_FOREACH_LIST`, and the
    other identifiers of a program. -/
inductive Name
  | eval0 | eval1 | eval2 | eval3 | eval4 | eval
  | mapEnd | mapOut
  | mapGetEnd2 | mapGetEnd1 | mapGetEnd
  | mapNext0 | mapNext1 | mapNext
  | map0 | map1
  | doForeach
  | ident (chars : Str)
deriving DecidableEq

/-- A token of a program that uses the macros. What is neither a name nor a
    parenthesis or a comma is given by its spelling. -/
abbrev Tok := Token Name Str

/-- A name as it is written, not yet painted as one that is never to be
    replaced. -/
def word (n : Name) : Tok := .name n false

/-- `0` -/
def zero : Tok := .other (str "0")

/-- `()()()`, three pairs of parentheses, of which each completes one call. -/
def endMarker : List Tok := [.lparen, .rparen, .lparen, .rparen, .lparen, .rparen]

/-- The replacement list of `__MAP_H_MAP_NEXT0(test, next, ...)`, `next
    __MAP_H_MAP_OUT`: the second argument, kept from being called. -/
def mapNext0Body : List (Part Name Str) := [.param 1, .lit (word .mapOut)]

/-- The replacement list of `__MAP_H_MAP_NEXT1(test, next)`,
    `__MAP_H_MAP_NEXT0(test, next, 0)`. If the first argument has become two,
    `__MAP_H_MAP_NEXT0` gets four. -/
def mapNext1Body : List (Part Name Str) :=
  [.lit (word .mapNext0), .lit .lparen, .param 0, .lit .comma, .param 1, .lit .comma, .lit zero,
    .lit .rparen]

/-- The replacement list of `__MAP_H_MAP_NEXT(test, next)`,
    `__MAP_H_MAP_NEXT1(__MAP_H_MAP_GET_END test, next)`. -/
def mapNextBody : List (Part Name Str) :=
  [.lit (word .mapNext1), .lit .lparen, .lit (word .mapGetEnd), .param 0, .lit .comma, .param 1,
    .lit .rparen]

/-- The replacement list of the two macros `__MAP_H_MAP0(f, x, peek, ...)` and
    `__MAP_H_MAP1(f, x, peek, ...)`, `f(x) __MAP_H_MAP_NEXT(peek, next)(f, peek,
    __VA_ARGS__)`, where `next` is the other one. -/
def mapBody (next : Name) : List (Part Name Str) :=
  [.param 0, .lit .lparen, .param 1, .lit .rparen,
    .lit (word .mapNext), .lit .lparen, .param 2, .lit .comma, .lit (word next), .lit .rparen,
    .lit .lparen, .param 0, .lit .comma, .param 2, .lit .comma, .param 3, .lit .rparen]

/-- The replacement list of `DO_FOREACH(f, ...)`, `__MAP_H_EVAL(__MAP_H_MAP1(f,
    __VA_ARGS__, ()()(), ()()(), ()()(), 0))`. -/
def doForeachBody : List (Part Name Str) :=
  [.lit (word .eval), .lit .lparen, .lit (word .map1), .lit .lparen, .param 0, .lit .comma,
    .param 1, .lit .comma] ++ endMarker.map .lit ++ [.lit .comma] ++ endMarker.map .lit ++
    [.lit .comma] ++ endMarker.map .lit ++ [.lit .comma, .lit zero, .lit .rparen, .lit .rparen]

/-- The definitions of `do_foreach.h`, over those of the rest of the
    program. -/
def macros (user : Str → Option (Macro Name Str)) : Name → Option (Macro Name Str)
  | .eval0 => some ⟨some ⟨0, true⟩, identityBody⟩
  | .eval1 => some ⟨some ⟨0, true⟩, tripleBody .eval0⟩
  | .eval2 => some ⟨some ⟨0, true⟩, tripleBody .eval1⟩
  | .eval3 => some ⟨some ⟨0, true⟩, tripleBody .eval2⟩
  | .eval4 => some ⟨some ⟨0, true⟩, tripleBody .eval3⟩
  | .eval => some ⟨some ⟨0, true⟩, tripleBody .eval4⟩
  | .mapEnd => some ⟨some ⟨0, true⟩, []⟩
  | .mapOut => some ⟨none, []⟩
  | .mapGetEnd2 => some ⟨some ⟨0, false⟩, [.lit zero, .lit .comma, .lit (word .mapEnd)]⟩
  | .mapGetEnd1 => some ⟨some ⟨0, true⟩, [.lit (word .mapGetEnd2)]⟩
  | .mapGetEnd => some ⟨some ⟨0, true⟩, [.lit (word .mapGetEnd1)]⟩
  | .mapNext0 => some ⟨some ⟨2, true⟩, mapNext0Body⟩
  | .mapNext1 => some ⟨some ⟨2, false⟩, mapNext1Body⟩
  | .mapNext => some ⟨some ⟨2, false⟩, mapNextBody⟩
  | .map0 => some ⟨some ⟨3, true⟩, mapBody .map1⟩
  | .map1 => some ⟨some ⟨3, true⟩, mapBody .map0⟩
  | .doForeach => some ⟨some ⟨1, true⟩, doForeachBody⟩
  | .ident chars => user chars

/-- A token that the preprocessor leaves alone: a name only if it is an
    identifier of the program without a definition there. -/
def inert (user : Str → Option (Macro Name Str)) : Tok → Bool
  | .name (.ident chars) false => (user chars).isNone
  | .name _ _ => false
  | _ => true

/-- The preprocessor leaves the token alone. -/
def Inert (user : Str → Option (Macro Name Str)) (t : Tok) : Prop := inert user t = true

/-- A token of an item: it is left alone, and is no parenthesis and no comma, so
    that an item is always one argument. -/
def Plain (user : Str → Option (Macro Name Str)) (t : Tok) : Prop :=
  Inert user t ∧ t ≠ .lparen ∧ t ≠ .rparen ∧ t ≠ .comma

/-- A macro `f` of one parameter, with nothing in its replacement list that is
    left to expand, and no parenthesis in it that is open after any argument. -/
structure Clause (user : Str → Option (Macro Name Str)) (f : Str)
    (body : List (Part Name Str)) : Prop where
  defined : user f = some ⟨some ⟨1, false⟩, body⟩
  inert : ∀ t, .lit t ∈ body → Inert user t
  balanced : ∀ x, Argument x → Balanced (substitute body [x])

/-- A macro that takes part in mapping, rather than in expanding again or in the
    rest of the program. -/
def Name.maps : Name → Bool
  | .eval0 | .eval1 | .eval2 | .eval3 | .eval4 | .eval | .doForeach | .ident _ => false
  | _ => true

/-- The names that occur in the text while a list is mapped over `f`: those of
    the mapping macros, `f` itself, and identifiers that are no macros. -/
def Used (user : Str → Option (Macro Name Str)) (f : Str) : Set Name :=
  {n | n.maps = true ∨ ∃ chars, n = .ident chars ∧ (chars = f ∨ user chars = none)}

/-- A call of a macro that maps `f`: of `__MAP_H_MAP0`, `__MAP_H_MAP1` or
    `__MAP_H_MAP_END`, with `f` as its first argument. -/
def mapCall (n : Name) (f : Str) (args : List (List Tok)) : List Tok :=
  call n (joinArgs ([word (.ident f)] :: args))

/-- What `DO_FOREACH` writes after the items: three markers, since an item and
    the one behind it are looked at together, and a `0` for `__VA_ARGS__`. -/
def markers : List (List Tok) := [endMarker, endMarker, endMarker, [zero]]

/-- The two macros that take turns. `DO_FOREACH` begins with `__MAP_H_MAP1`. -/
def mapName : Bool → Name
  | true => .map1
  | false => .map0

/-- The text after a number of expansions: the clauses of as many items, and a
    call for the items behind them. When the items are used up, the call is of
    `__MAP_H_MAP_END`, and one expansion later it is gone. -/
def stage (f : Str) (body : List (Part Name Str)) : Bool → List (List Tok) → Nat → List Tok
  | _, [], 0 => mapCall .mapEnd f markers
  | _, [], _ + 1 => []
  | turn, x :: xs, 0 => mapCall (mapName turn) f (x :: xs ++ markers)
  | turn, x :: xs, j + 1 => substitute body [x] ++ stage f body (!turn) xs j

/-! ### Tokens -/

/-- A name is no opening parenthesis, so it does not complete a call. -/
theorem word_ne_lparen (n : Name) : word n ≠ .lparen := nofun

/-- A name is no closing parenthesis, so it does not end a call. -/
theorem word_ne_rparen (n : Name) : word n ≠ .rparen := nofun

/-- A name is no comma, so it does not end an argument. -/
theorem word_ne_comma (n : Name) : word n ≠ .comma := nofun

/-- A comma is no opening parenthesis, so a name in front of it is not called. -/
theorem comma_ne_lparen : (.comma : Tok) ≠ .lparen := nofun

/-- A name is an argument, also where it could be called. -/
theorem argument_word (n : Name) : Argument [word n] :=
  .atom _ (word_ne_lparen n) (word_ne_rparen n) (word_ne_comma n)

/-- So is the `0` at the end. -/
theorem argument_zero : Argument [zero] := .atom zero nofun nofun nofun

/-- The marker is one argument, for all its parentheses. -/
theorem argument_endMarker : Argument endMarker := by
  have hpair : Argument ([.lparen, .rparen] : List Tok) := .parens .nil
  exact .append hpair (.append hpair hpair)

/-- An item is an argument, whatever tokens it is made of. -/
theorem argument_plain {user : Str → Option (Macro Name Str)} {x : List Tok}
    (h : ∀ t ∈ x, Plain user t) : Argument x :=
  .of_forall fun t ht => (h t ht).2

/-- What is written after the items are arguments. -/
theorem argument_markers : ∀ a ∈ markers, Argument a := by
  simp only [markers, List.forall_mem_cons, argument_endMarker, argument_zero, true_and,
    List.not_mem_nil, false_implies, implies_true]

/-- There is always something behind the items. -/
theorem markers_ne_nil : markers ≠ [] := List.cons_ne_nil _ _

/-- In a list with one name added, a name that differs from it is where it was. -/
theorem not_mem_cons {D : List Name} {m n : Name} (hne : m ≠ n) (hm : m ∉ D) : m ∉ n :: D :=
  List.not_mem_cons_of_ne_of_not_mem hne hm

/-! ### Tokens that are left alone -/

section Inert

variable {user : Str → Option (Macro Name Str)} {D : List Name}

/-- The identifiers that are no macros are enabled. -/
def IdentsEnabled (user : Str → Option (Macro Name Str)) (D : List Name) : Prop :=
  ∀ chars, user chars = none → Name.ident chars ∉ D

/-- The preprocessor goes past a token that it leaves alone. -/
theorem action_inert (hD : IdentsEnabled user D) {t : Tok} (ht : Inert user t)
    (rest : List (Item Name Str)) : action (macros user) D rest t = .emit t := by
  cases t with
  | name n painted =>
      cases n with
      | ident chars =>
          cases painted with
          | true => exact Bool.noConfusion ht
          | false =>
              have hm : macros user (.ident chars) = none := Option.isNone_iff_eq_none.mp ht
              exact action_plain (hD chars hm) hm rest
      | _ => exact Bool.noConfusion ht
  | lparen => rfl
  | rparen => rfl
  | comma => rfl
  | other t => rfl

/-- Tokens that are left alone are written as they are. -/
theorem emits_inert (hD : IdentsEnabled user D) {ts : List Tok} (h : ∀ t ∈ ts, Inert user t) :
    Emits (macros user) D ts ts :=
  .self fun t ht rest => action_inert hD (h t ht) rest

/-- None of their names is being replaced. -/
theorem enabled_inert (hD : IdentsEnabled user D) {ts : List Tok} (h : ∀ t ∈ ts, Inert user t) :
    Enabled D ts := by
  intro n hn
  have hn' := h _ hn
  cases n with
  | ident chars => exact hD chars (Option.isNone_iff_eq_none.mp hn')
  | _ => exact Bool.noConfusion hn'

/-- Identifiers that are no macros stay enabled while a macro is replaced. -/
theorem IdentsEnabled.cons (hD : IdentsEnabled user D) {n : Name}
    (hn : ∀ chars, user chars = none → Name.ident chars ≠ n) : IdentsEnabled user (n :: D) :=
  fun chars hc => not_mem_cons (hn chars hc) (hD chars hc)

/-- There is nothing to expand in the `0`. -/
theorem inert_zero : Inert user zero := rfl

/-- There is nothing to expand in the marker, until a name comes to stand in
    front of it. -/
theorem inert_endMarker : ∀ t ∈ endMarker, Inert user t := by
  simp only [endMarker, List.forall_mem_cons, Inert, inert, true_and, List.not_mem_nil,
    false_implies, implies_true]

/-- There is nothing to expand in what is written after the items. -/
theorem inert_markers : ∀ a ∈ markers, ∀ t ∈ a, Inert user t := by
  have hzero : ∀ t ∈ [zero], Inert user t := List.forall_mem_singleton.mpr inert_zero
  exact List.forall_mem_cons.mpr ⟨inert_endMarker, List.forall_mem_cons.mpr ⟨inert_endMarker,
    List.forall_mem_cons.mpr ⟨inert_endMarker, List.forall_mem_singleton.mpr hzero⟩⟩⟩

/-- Joining arguments adds commas only, which are left alone. -/
theorem inert_joinArgs {as : List (List Tok)} (h : ∀ a ∈ as, ∀ t ∈ a, Inert user t) :
    ∀ t ∈ joinArgs as, Inert user t := by
  intro t ht
  rcases mem_joinArgs ht with rfl | ⟨a, ha, hta⟩
  · exact rfl
  · exact h a ha t hta

/-- The names of two texts are those of the one and those of the other. -/
theorem enabled_append {ts us : List Tok} (ht : Enabled D ts) (hu : Enabled D us) :
    Enabled D (ts ++ us) :=
  fun n hn => (List.mem_append.mp hn).elim (ht n) (hu n)

/-- A name that is not being replaced is enabled. -/
theorem enabled_word {n : Name} (hn : n ∉ D) : Enabled D [word n] := by
  intro m hm
  rw [List.mem_singleton.mp hm |> Token.name.inj |>.1]
  exact hn

/-- There is no name in the `0`. -/
theorem enabled_zero : Enabled D [zero] :=
  fun _ hn => absurd (List.mem_singleton.mp hn) nofun

end Inert

/-- What is asked of two arguments is asked of each. -/
theorem forall_mem_pair {α : Type} {P : α → Prop} {a b : α} :
    (∀ x ∈ [a, b], P x) ↔ P a ∧ P b := by
  rw [List.forall_mem_cons, List.forall_mem_singleton]

/-! ### The search for the end -/

section Next

variable {user : Str → Option (Macro Name Str)} {D : List Name}

/-- A name that is output as it is in front of a comma or at the end. -/
theorem expands_word {n : Name} {params : Params} {b : List (Part Name Str)} (hn : n ∉ D)
    (hm : macros user n = some ⟨some params, b⟩) :
    Expands (macros user) D (toItems [word n]) [word n] :=
  .emit (action_alone hn hm rfl) .nil

/-- The last step of `__MAP_H_MAP_NEXT`. The empty macro after the name keeps it
    from being called. -/
theorem emits_held {n : Name} {params : Params} {b : List (Part Name Str)} (hn : n ∉ D)
    (ho : Name.mapOut ∉ D) (hm : macros user n = some ⟨some params, b⟩) :
    Emits (macros user) D [word n, word .mapOut] [word n] :=
  .apart hn hm (word_ne_lparen _) (.object ho rfl .nil)

/-- The macros that search for the end. -/
def Name.searches : Name → Bool
  | .mapNext0 | .mapNext1 | .mapNext => true
  | _ => false

/-- The search can begin: none of its macros is being replaced. -/
def Searching (D : List Name) : Prop := ∀ n : Name, n.searches = true → n ∉ D

/-- What is enabled while the end is searched for: the names that are written,
    and the identifiers that are no macros. -/
structure Ready (user : Str → Option (Macro Name Str)) (turn : Bool) (D : List Name) : Prop where
  mapEnd : Name.mapEnd ∉ D
  mapOut : Name.mapOut ∉ D
  getEnd2 : Name.mapGetEnd2 ∉ D
  getEnd1 : Name.mapGetEnd1 ∉ D
  getEnd : Name.mapGetEnd ∉ D
  other : mapName turn ∉ D
  idents : IdentsEnabled user D

/-- A name that is not of the search is still enabled within it. -/
theorem not_mem_searching {m n : Name} (hm : m.searches = false) (hn : n.searches = true)
    (h : m ∉ D) : m ∉ n :: D := by
  -- The name being replaced is of the search, and the other is not.
  refine not_mem_cons ?_ h
  rintro rfl
  rw [hm] at hn
  exact Bool.false_ne_true hn

/-- The two macros that take turns are not of the search. -/
theorem searches_mapName (turn : Bool) : (mapName turn).searches = false := by
  cases turn with
  | true => rfl
  | false => rfl

/-- One macro of the search may be replaced inside another. -/
theorem Ready.push {turn : Bool} (h : Ready user turn D) {n : Name} (hn : n.searches = true) :
    Ready user turn (n :: D) where
  mapEnd := not_mem_searching rfl hn h.mapEnd
  mapOut := not_mem_searching rfl hn h.mapOut
  getEnd2 := not_mem_searching rfl hn h.getEnd2
  getEnd1 := not_mem_searching rfl hn h.getEnd1
  getEnd := not_mem_searching rfl hn h.getEnd
  other := not_mem_searching (searches_mapName turn) hn h.other
  idents chars hc := not_mem_searching rfl hn (h.idents chars hc)

/-- Behind a replacement that ends, a parenthesis is looked for: a name at the
    end of it may be called with what follows. -/
theorem openParen_pop (n : Name) (D : List Name) (rest : List (Item Name Str)) :
    openParen (n :: D) (.pop n :: rest) = openParen D rest := by
  rw [openParen, List.erase_cons_head]

/-- The marker completes three calls in a row, each of a name that the one
    before it wrote. -/
theorem expands_getEnd {turn : Bool} (hD : Ready user turn D) :
    Expands (macros user) D (toItems (word .mapGetEnd :: endMarker))
      [zero, .comma, word .mapEnd] := by
  have hnil : Enabled D ([] : List Tok) := fun _ h => absurd h List.not_mem_nil
  have hargs : List.Forall₂ (fun arg e => Expands (macros user) D (toItems arg) e) [[]] [[]] :=
    .cons .nil .nil
  have h₁ : Name.mapGetEnd1 ∉ Name.mapGetEnd :: D := not_mem_cons nofun hD.getEnd1
  have h₂ : Name.mapGetEnd2 ∉ Name.mapGetEnd1 :: D := not_mem_cons nofun hD.getEnd2
  have h₃ : Name.mapEnd ∉ Name.mapGetEnd2 :: D := not_mem_cons nofun hD.mapEnd
  -- Each name is read when the replacement that wrote it ends, and finds its
  -- parentheses behind that.
  refine .called hD.getEnd rfl rfl .nil hnil rfl hargs ?_
  refine .called h₁ rfl (openParen_pop _ _ _) .nil hnil rfl hargs ?_
  refine .called h₂ rfl (openParen_pop _ _ _) .nil hnil rfl .nil ?_
  refine .emit rfl (.emit rfl ?_)
  exact .emit (action_alone h₃ rfl (openParen_pop _ _ _)) (.pop .nil)

/-- Each of the two macros writes a call of the other. -/
theorem macros_mapName (turn : Bool) :
    macros user (mapName turn) = some ⟨some ⟨3, true⟩, mapBody (mapName !turn)⟩ := by
  cases turn with
  | true => rfl
  | false => rfl

/-- As an argument, its name is not called. -/
theorem Ready.expands_next {turn : Bool} (h : Ready user turn D) :
    Expands (macros user) D (toItems [word (mapName turn)]) [word (mapName turn)] :=
  expands_word h.other (macros_mapName turn)

/-- What `__MAP_H_MAP_NEXT` is replaced by. -/
theorem substitute_mapNext (test next : List Tok) :
    substitute mapNextBody [test, next] =
      call .mapNext1 (joinArgs [word .mapGetEnd :: test, next]) := by
  simp only [mapNextBody, substitute_lit, substitute_param, substitute_nil, List.getD_cons_zero,
    List.getD_cons_succ, call, word, joinArgs_cons_cons, joinArgs_singleton, List.cons_append,
    List.append_assoc]

/-- What `__MAP_H_MAP_NEXT0` is replaced by. The rest of its arguments is
    dropped. -/
theorem substitute_mapNext0 (test next rest : List Tok) :
    substitute mapNext0Body [test, next, rest] = next ++ [word .mapOut] := by
  simp only [mapNext0Body, substitute_lit, substitute_param, substitute_nil, List.getD_cons_zero,
    List.getD_cons_succ]

/-- What `__MAP_H_MAP_NEXT1` is replaced by. -/
theorem substitute_mapNext1 (test next : List Tok) :
    substitute mapNext1Body [test, next] = call .mapNext0 (joinArgs [test, next, [zero]]) := by
  simp only [mapNext1Body, substitute_lit, substitute_param, substitute_nil, List.getD_cons_zero,
    List.getD_cons_succ, call, word, joinArgs_cons_cons, joinArgs_singleton, List.cons_append,
    List.append_assoc, List.nil_append]

/-- The three macros of the search, down to the call of the last of them. `test`
    is what the item and the name in front of it turn into as an argument; that
    is all in which an item and the marker differ. -/
theorem emits_next {turn : Bool} (hD : Ready user turn D)
    (hnext : Searching D) {peek test out : List Tok}
    (hp : Argument peek) (hpi : ∀ t ∈ peek, Inert user t)
    (htest : ∀ D', Ready user turn D' → Expands (macros user) D' (toItems (word .mapGetEnd :: peek))
      test)
    (hout : ∀ D', Ready user turn D' → Name.mapNext0 ∉ D' →
      Emits (macros user) D'
        (call .mapNext0 (joinArgs [test, [word (mapName turn)], [zero]])) out) :
    Emits (macros user) D (call .mapNext (joinArgs [peek, [word (mapName turn)]])) out := by
  have hD₁ : Ready user turn (.mapNext :: D) := hD.push rfl
  have hD₂ : Ready user turn (.mapNext1 :: .mapNext :: D) := hD₁.push rfl
  have h₁ : Name.mapNext1 ∉ Name.mapNext :: D := not_mem_cons nofun (hnext .mapNext1 rfl)
  have h₂ : Name.mapNext0 ∉ Name.mapNext1 :: .mapNext :: D :=
    not_mem_cons nofun (not_mem_cons nofun (hnext .mapNext0 rfl))
  have hnextArg : Argument [word (mapName turn)] := argument_word (mapName turn)
  have htestArg : Argument (word .mapGetEnd :: peek) := .append (argument_word _) hp
  have htestEnabled : Enabled (.mapNext :: D) (word .mapGetEnd :: peek) :=
    enabled_append (enabled_word hD₁.getEnd) (enabled_inert hD₁.idents hpi)
  -- `__MAP_H_MAP_NEXT` puts the probe in front of the item.
  refine .called_args [peek, [word (mapName turn)]] (hnext .mapNext rfl) rfl
    (List.cons_ne_nil _ _) (forall_mem_pair.mpr ⟨hp, hnextArg⟩)
    (forall_mem_pair.mpr ⟨enabled_inert hD.idents hpi, enabled_word hD.other⟩)
    (.cons (emits_inert hD.idents hpi).expands (.cons hD.expands_next .nil)) ?_
  rw [substitute_mapNext]
  -- As an argument of the next macro the probe is expanded.
  refine .called_args [word .mapGetEnd :: peek, [word (mapName turn)]] h₁ rfl
    (List.cons_ne_nil _ _) (forall_mem_pair.mpr ⟨htestArg, hnextArg⟩)
    (forall_mem_pair.mpr ⟨htestEnabled, enabled_word hD₁.other⟩)
    (.cons (htest _ hD₁) (.cons hD₁.expands_next .nil)) ?_
  rw [substitute_mapNext1]
  exact hout _ hD₂ h₂

/-- What is asked of the two arguments and the variadic one of the last macro of
    the search is asked of each. -/
theorem forall_mem_triple {α : Type} {P : α → Prop} {a b c : α} (ha : P a) (hb : P b) (hc : P c) :
    ∀ x ∈ [a, b] ++ [c], P x :=
  List.forall_mem_append.mpr ⟨forall_mem_pair.mpr ⟨ha, hb⟩, List.forall_mem_singleton.mpr hc⟩

/-- In front of an item, the search finds the other macro, whose turn it is. -/
theorem emits_next_item {turn : Bool} (hD : Ready user turn D)
    (hnext : Searching D) {peek : List Tok}
    (hp : ∀ t ∈ peek, Plain user t) :
    Emits (macros user) D (call .mapNext (joinArgs [peek, [word (mapName turn)]]))
      [word (mapName turn)] := by
  have hpi : ∀ t ∈ peek, Inert user t := fun t ht => (hp t ht).1
  -- The name in front of the item is not called.
  have htest : ∀ D', Ready user turn D' → Expands (macros user) D'
      (toItems (word .mapGetEnd :: peek)) (word .mapGetEnd :: peek) := by
    intro D' hD'
    cases peek with
    | nil => exact expands_word hD'.getEnd rfl
    | cons t ts =>
        exact (Emits.apart hD'.getEnd rfl (hp t List.mem_cons_self).2.1
          (emits_inert hD'.idents hpi)).expands
  refine emits_next hD hnext (argument_plain hp) hpi htest fun D' hD' h₀ => ?_
  have hen : Enabled D' (word .mapGetEnd :: peek) :=
    enabled_append (enabled_word hD'.getEnd) (enabled_inert hD'.idents hpi)
  -- So the test is one argument still, and the macro is the second.
  have harg : Argument (word .mapGetEnd :: peek) :=
    .append (argument_word _) (argument_plain hp)
  refine .called_variadic [word .mapGetEnd :: peek, [word (mapName turn)]] [[zero]] h₀ rfl
    (List.cons_ne_nil [zero] []) (forall_mem_triple harg (argument_word _) argument_zero)
    (forall_mem_triple hen (enabled_word hD'.other) enabled_zero)
    (.cons (htest D' hD') (.cons hD'.expands_next (.cons (.emit rfl .nil) .nil))) ?_
  rw [substitute_mapNext0]
  have hD₀ : Ready user turn (.mapNext0 :: D') := hD'.push rfl
  exact emits_held hD₀.other hD₀.mapOut (macros_mapName turn)

/-- At the end of the list, the search finds `__MAP_H_MAP_END`. The marker has
    become two arguments, and the other macro is in the place of the third. -/
theorem emits_next_end {turn : Bool} (hD : Ready user turn D)
    (hnext : Searching D) :
    Emits (macros user) D (call .mapNext (joinArgs [endMarker, [word (mapName turn)]]))
      [word .mapEnd] := by
  refine emits_next hD hnext argument_endMarker inert_endMarker (fun _ hD' => expands_getEnd hD')
    fun D' hD' h₀ => ?_
  -- The macro has become part of `__VA_ARGS__`, where a comma follows it.
  have hrest : Expands (macros user) D' (toItems (joinArgs [[word (mapName turn)], [zero]]))
      (joinArgs [[word (mapName turn)], [zero]]) := by
    have hafter : ∀ t ∈ [.comma, zero], Inert user t := forall_mem_pair.mpr ⟨rfl, inert_zero⟩
    have hapart := Emits.apart hD'.other (macros_mapName turn) comma_ne_lparen
      (emits_inert hD'.idents hafter)
    exact hapart.expands
  have hend : Expands (macros user) D' (toItems [word .mapEnd]) [word .mapEnd] :=
    expands_word hD'.mapEnd rfl
  refine .called_variadic [[zero], [word .mapEnd]] [[word (mapName turn)], [zero]] h₀ rfl
    (List.cons_ne_nil _ _) ?_ ?_ (.cons (.emit rfl .nil) (.cons hend (.cons hrest .nil))) ?_
  · exact List.forall_mem_append.mpr ⟨forall_mem_pair.mpr ⟨argument_zero, argument_word _⟩,
      forall_mem_pair.mpr ⟨argument_word _, argument_zero⟩⟩
  · exact List.forall_mem_append.mpr
      ⟨forall_mem_pair.mpr ⟨enabled_zero, enabled_word hD'.mapEnd⟩,
        forall_mem_pair.mpr ⟨enabled_word hD'.other, enabled_zero⟩⟩
  rw [substitute_mapNext0]
  have hD₀ : Ready user turn (.mapNext0 :: D') := hD'.push rfl
  exact emits_held hD₀.mapEnd hD₀.mapOut rfl

end Next

/-! ### One item -/

section Item

variable {user : Str → Option (Macro Name Str)} {f : Str} {body : List (Part Name Str)}
  {D : List Name}

/-- Identifiers that are no macros are in use, and the name of the clause macro
    is. -/
theorem Used.idents (hD : ∀ m ∈ Used user f, m ∉ D) : IdentsEnabled user D :=
  fun chars hc => hD (.ident chars) (.inr ⟨chars, rfl, .inr hc⟩)

/-- Where nothing that is in use is being replaced, the clause macro can be
    called. -/
theorem Used.clause (hD : ∀ m ∈ Used user f, m ∉ D) : .ident f ∉ D :=
  hD (.ident f) (.inr ⟨f, rfl, .inl rfl⟩)

/-- While one of the two macros that take turns is replaced, all names of the
    mapping are enabled but its own. -/
theorem not_mem_mapName (turn : Bool) (hD : ∀ m ∈ Used user f, m ∉ D) (n : Name)
    (hn : n.maps = true) (hne : n ≠ mapName turn) : n ∉ mapName turn :: D :=
  not_mem_cons hne (hD n (.inl hn))

/-- No other macro has the name of one of these two. The names that the search
    can write are listed, and those of the search itself. -/
theorem ne_mapName (turn : Bool) : Name.mapEnd ≠ mapName turn ∧ .mapOut ≠ mapName turn ∧
    .mapGetEnd2 ≠ mapName turn ∧ .mapGetEnd1 ≠ mapName turn ∧ .mapGetEnd ≠ mapName turn ∧
    mapName (!turn) ≠ mapName turn ∧ ∀ n : Name, n.searches = true → n ≠ mapName turn := by
  have hsearches : ∀ n : Name, n.searches = true → n ≠ mapName turn := by
    rintro n hn rfl
    rw [searches_mapName] at hn
    exact Bool.false_ne_true hn
  cases turn with
  | true => exact ⟨nofun, nofun, nofun, nofun, nofun, nofun, hsearches⟩
  | false => exact ⟨nofun, nofun, nofun, nofun, nofun, nofun, hsearches⟩

/-- The two macros that take turns are of the mapping. -/
theorem maps_mapName (turn : Bool) : (mapName turn).maps = true := by
  cases turn with
  | true => rfl
  | false => rfl

/-- An identifier of the program is not one of them. -/
theorem ident_ne_mapName (turn : Bool) (chars : Str) : Name.ident chars ≠ mapName turn := by
  cases turn with
  | true => exact Name.noConfusion
  | false => exact Name.noConfusion

/-- So the search can be made inside of one of them, and can find the other. -/
theorem Used.ready (turn : Bool) (hD : ∀ m ∈ Used user f, m ∉ D) :
    Ready user (!turn) (mapName turn :: D) := by
  rcases ne_mapName turn with ⟨hend, hout, hget2, hget1, hget, hother, _⟩
  exact ⟨not_mem_mapName turn hD .mapEnd rfl hend, not_mem_mapName turn hD .mapOut rfl hout,
    not_mem_mapName turn hD .mapGetEnd2 rfl hget2, not_mem_mapName turn hD .mapGetEnd1 rfl hget1,
    not_mem_mapName turn hD .mapGetEnd rfl hget,
    not_mem_mapName turn hD _ (maps_mapName !turn) hother,
    (Used.idents hD).cons fun chars _ => ident_ne_mapName turn chars⟩

/-- The macros of the search are of the mapping. -/
theorem maps_of_searches {n : Name} (hn : n.searches = true) : n.maps = true := by
  cases n with
  | mapNext0 => rfl
  | mapNext1 => rfl
  | mapNext => rfl
  | _ => exact Bool.noConfusion hn

/-- Inside of one of the two macros the search can begin. -/
theorem Used.searching (turn : Bool) (hD : ∀ m ∈ Used user f, m ∉ D) :
    Searching (mapName turn :: D) := by
  intro n hn
  have hne := (ne_mapName turn).2.2.2.2.2.2 n hn
  exact not_mem_mapName turn hD n (maps_of_searches hn) hne

/-- What an item is replaced by: its clause, the search, and the arguments for
    the macro that is found. -/
theorem substitute_mapBody (next : Name) (f x peek rest : List Tok) :
    substitute (mapBody next) [f, x, peek, rest] = (f ++ .lparen :: x ++ [.rparen]) ++
      (call .mapNext (joinArgs [peek, [word next]]) ++
        (.lparen :: joinArgs [f, peek, rest] ++ [.rparen])) := by
  simp only [mapBody, substitute_lit, substitute_param, substitute_nil, List.getD_cons_zero,
    List.getD_cons_succ, call, word, joinArgs_cons_cons, joinArgs_singleton, List.cons_append,
    List.append_assoc, List.nil_append]

/-- A token of a clause is of the replacement list or of the item. -/
theorem mem_substitute {body : List (Part Name Str)} {x : List Tok} {t : Tok}
    (h : t ∈ substitute body [x]) : .lit t ∈ body ∨ t ∈ x := by
  rw [substitute, List.mem_flatMap] at h
  rcases h with ⟨p, hp, ht⟩
  -- A part of the list is a token or a parameter, and there is one parameter.
  cases p with
  | lit t' => exact .inl (List.mem_singleton.mp ht ▸ hp)
  | param i =>
      cases i with
      | zero => exact .inr ht
      | succ i => exact absurd ht List.not_mem_nil

/-- Nothing in a clause is expanded again, neither of the replacement list nor
    of the item. -/
theorem Clause.inert_substitute (hc : Clause user f body) {x : List Tok}
    (hx : ∀ t ∈ x, Plain user t) : ∀ t ∈ substitute body [x], Inert user t :=
  fun t ht => (mem_substitute ht).elim (hc.inert t) fun h => (hx t h).1

/-- A call of the clause macro with an item writes the clause of the item. -/
theorem Clause.emits (hc : Clause user f body) (hD : IdentsEnabled user D) (hf : .ident f ∉ D)
    {x : List Tok} (hx : ∀ t ∈ x, Plain user t) :
    Emits (macros user) D (call (.ident f) x) (substitute body [x]) := by
  have hxi : ∀ t ∈ x, Inert user t := fun t ht => (hx t ht).1
  have hdefined : macros user (.ident f) = some ⟨some ⟨1, false⟩, body⟩ := hc.defined
  -- The item is expanded as an argument, put in its place and scanned again.
  have hcall := Emits.called_args [x] hf hdefined (List.cons_ne_nil x [])
    (List.forall_mem_singleton.mpr (argument_plain hx))
    (List.forall_mem_singleton.mpr (enabled_inert hD hxi))
    (.cons (emits_inert hD hxi).expands .nil)
    (emits_inert (hD.cons fun chars hchars he => ?_) (hc.inert_substitute hx))
  · rwa [joinArgs_singleton] at hcall
  · rw [Name.ident.inj he, hc.defined] at hchars
    exact absurd hchars nofun

/-- A call of one of the two macros, by the three arguments that are named in
    it. -/
theorem mapCall_eq (n : Name) {f : Str} {peek : List Tok} {rest : List (List Tok)}
    (hne : rest ≠ []) : mapCall n f (peek :: rest) =
      [word n] ++ (.lparen :: joinArgs [[word (.ident f)], peek, joinArgs rest] ++ [.rparen]) := by
  rw [mapCall, joinArgs_cons_cons, joinArgs_cons_cons, joinArgs_cons_cons, joinArgs_singleton,
    joinArgs_cons peek hne]
  rfl

/-- One item: its clause, and a call for the others of the macro whose name the
    search finds. -/
theorem emits_map (turn : Bool) {x peek : List Tok} (rest : List (List Tok))
    (hc : Clause user f body) (hD : ∀ m ∈ Used user f, m ∉ D) (hx : ∀ t ∈ x, Plain user t)
    (hargs : ∀ a ∈ peek :: rest, Argument a) (hinert : ∀ a ∈ peek :: rest, ∀ t ∈ a, Inert user t)
    (hne : rest ≠ []) {n : Name}
    (hnext : ∀ D', Ready user (!turn) D' → Searching D' →
      Emits (macros user) D' (call .mapNext (joinArgs [peek, [word (mapName !turn)]])) [word n]) :
    Emits (macros user) D (mapCall (mapName turn) f (x :: peek :: rest))
      (substitute body [x] ++ mapCall n f (peek :: rest)) := by
  rcases List.forall_mem_cons.mp hargs with ⟨hpeek, hrest⟩
  rcases List.forall_mem_cons.mp hinert with ⟨hpeeki, hresti⟩
  have hxi : ∀ t ∈ x, Inert user t := fun t ht => (hx t ht).1
  have hids := Used.idents hD
  have hf := Used.clause hD
  have hfalone : Expands (macros user) D (toItems [word (.ident f)]) [word (.ident f)] :=
    expands_word hf hc.defined
  -- What comes after the items that are looked at is handed on as it is.
  have hself := emits_inert hids (inert_joinArgs hresti)
  refine .called_variadic [[word (.ident f)], x, peek] rest (hD _ (.inl (maps_mapName turn)))
    (macros_mapName turn) hne ?_ ?_
    (.cons hfalone (.cons (emits_inert hids hxi).expands
      (.cons (emits_inert hids hpeeki).expands (.cons hself.expands .nil)))) ?_
  · exact List.forall_mem_append.mpr ⟨List.forall_mem_cons.mpr ⟨argument_word _,
      forall_mem_pair.mpr ⟨argument_plain hx, hpeek⟩⟩, hrest⟩
  · exact List.forall_mem_append.mpr ⟨List.forall_mem_cons.mpr ⟨enabled_word hf,
      forall_mem_pair.mpr ⟨enabled_inert hids hxi, enabled_inert hids hpeeki⟩⟩,
      fun a ha => enabled_inert hids (hresti a ha)⟩
  have hready := Used.ready turn hD
  have hf' : Name.ident f ∉ mapName turn :: D :=
    not_mem_cons (ident_ne_mapName turn f) hf
  -- The name of the clause macro is followed by a comma here.
  have hparens : Emits (macros user) (mapName turn :: D)
      (.lparen :: joinArgs [[word (.ident f)], peek, joinArgs rest] ++ [.rparen])
      (.lparen :: joinArgs [[word (.ident f)], peek, joinArgs rest] ++ [.rparen]) := by
    have hafter : ∀ t ∈ .comma :: joinArgs [peek, joinArgs rest] ++ [.rparen], Inert user t := by
      have hboth : ∀ a ∈ [peek, joinArgs rest], ∀ t ∈ a, Inert user t :=
        forall_mem_pair.mpr ⟨hpeeki, inert_joinArgs hresti⟩
      intro t ht
      rcases List.mem_append.mp ht with ht | ht
      · rcases List.mem_cons.mp ht with rfl | ht
        · exact rfl
        · exact inert_joinArgs hboth t ht
      · rw [List.mem_singleton.mp ht]
        exact rfl
    have happart := Emits.apart hf' hc.defined comma_ne_lparen
      (emits_inert hready.idents hafter)
    have hopen : Emits (macros user) (mapName turn :: D) [.lparen] [.lparen] :=
      .single fun _ => rfl
    rw [joinArgs_cons_cons]
    exact hopen.append happart
  -- The clause is expanded, the search finds a name, and the arguments follow.
  rw [substitute_mapBody, mapCall_eq n hne]
  exact (hc.emits hready.idents hf' hx).append
    ((hnext _ hready (Used.searching turn hD)).append hparens)

end Item

/-! ### Expansion after expansion -/

section Stages

variable {user : Str → Option (Macro Name Str)} {f : Str} {body : List (Part Name Str)}
  {D : List Name}

/-- The items and the markers behind them are arguments, and are left alone. -/
theorem argument_args {xs : List (List Tok)} (hxs : ∀ x ∈ xs, ∀ t ∈ x, Plain user t) :
    ∀ a ∈ xs ++ markers, Argument a :=
  List.forall_mem_append.mpr ⟨fun a ha => argument_plain (hxs a ha), argument_markers⟩

/-- The items and the markers behind them are left alone. -/
theorem inert_args {xs : List (List Tok)} (hxs : ∀ x ∈ xs, ∀ t ∈ x, Plain user t) :
    ∀ a ∈ xs ++ markers, ∀ t ∈ a, Inert user t :=
  List.forall_mem_append.mpr ⟨fun a ha t ht => (hxs a ha t ht).1, inert_markers⟩

/-- A call with arguments is balanced in its parentheses. -/
theorem balanced_mapCall (n : Name) {args : List (List Tok)} (h : ∀ a ∈ args, Argument a) :
    Balanced (mapCall n f args) :=
  (Argument.call n (.joinArgs (List.forall_mem_cons.mpr
    ⟨(argument_word _).balanced, fun a ha => (h a ha).balanced⟩))).balanced

/-- The call that the search for the end has found leaves nothing behind,
    whatever its arguments are. -/
theorem emits_mapEnd (hc : Clause user f body) (hD : ∀ m ∈ Used user f, m ∉ D) :
    Emits (macros user) D (mapCall .mapEnd f markers) [] := by
  have hids := Used.idents hD
  have hf := Used.clause hD
  have hjoin : joinArgs ([word (.ident f)] :: markers) =
      word (.ident f) :: .comma :: joinArgs markers := joinArgs_cons_cons _ _ _
  have hargs : Expands (macros user) D (toItems (joinArgs ([word (.ident f)] :: markers)))
      (joinArgs ([word (.ident f)] :: markers)) := by
    have hinert : ∀ t ∈ Token.comma :: joinArgs markers, Inert user t :=
      List.forall_mem_cons.mpr ⟨rfl, inert_joinArgs inert_markers⟩
    rw [hjoin]
    exact (Emits.apart hf hc.defined comma_ne_lparen (emits_inert hids hinert)).expands
  -- Its only parameter is the variadic one, which takes all arguments.
  refine .called_variadic [] ([word (.ident f)] :: markers) (hD _ (.inl rfl)) rfl
    (List.cons_ne_nil _ _) ?_ ?_
    (.cons hargs .nil) .nil
  · exact List.forall_mem_cons.mpr ⟨argument_word _, argument_markers⟩
  · exact List.forall_mem_cons.mpr
      ⟨enabled_word hf, fun a ha => enabled_inert hids (inert_markers a ha)⟩

/-- One expansion takes the text one stage further. What has been written stays,
    and the call at the end becomes a clause and the next call. -/
theorem emits_stage (hc : Clause user f body) (hD : ∀ m ∈ Used user f, m ∉ D) (turn : Bool)
    (xs : List (List Tok)) (hxs : ∀ x ∈ xs, ∀ t ∈ x, Plain user t) (j : Nat) :
    Emits (macros user) D (stage f body turn xs j) (stage f body turn xs (j + 1)) := by
  induction xs generalizing turn j with
  | nil =>
      cases j with
      | zero => exact emits_mapEnd hc hD
      | succ j => exact .nil
  | cons x xs ih =>
      rcases List.forall_mem_cons.mp hxs with ⟨hx, hxs'⟩
      cases j with
      | succ j =>
          -- A clause that has been written is not touched again.
          have hself := emits_inert (Used.idents hD) (hc.inert_substitute hx)
          exact hself.append (ih (!turn) hxs' j)
      | zero =>
          cases xs with
          | nil =>
              -- The last item is followed by the marker.
              refine emits_map turn [endMarker, endMarker, [zero]] hc hD hx argument_markers
                inert_markers (List.cons_ne_nil _ _) fun D' hr hn => ?_
              exact emits_next_end hr hn
          | cons y ys =>
              -- Another item follows.
              rcases List.forall_mem_cons.mp hxs' with ⟨hy, hys⟩
              refine emits_map turn (ys ++ markers) hc hD hx ?_ ?_
                (List.append_ne_nil_of_right_ne_nil ys markers_ne_nil) fun D' hr hn => ?_
              · exact argument_args hxs'
              · exact inert_args hxs'
              · exact emits_next_item hr hn hy

/-- Every stage is balanced in its parentheses. -/
theorem balanced_stage (hc : Clause user f body) (turn : Bool) (xs : List (List Tok))
    (hxs : ∀ x ∈ xs, ∀ t ∈ x, Plain user t) (j : Nat) : Balanced (stage f body turn xs j) := by
  induction xs generalizing turn j with
  | nil =>
      -- With no expansion left it is a call, else a clause and a later stage.
      cases j with
      | zero => exact balanced_mapCall _ argument_markers
      | succ j => exact .nil
  | cons x xs ih =>
      rcases List.forall_mem_cons.mp hxs with ⟨hx, hxs'⟩
      cases j with
      | zero => exact balanced_mapCall _ (argument_args hxs)
      | succ j => exact .append (hc.balanced x (argument_plain hx)) (ih (!turn) hxs' j)

/-- A name that is left alone is an identifier that is no macro, so it counts
    among the names in use. -/
theorem used_of_inert {ts : List Tok} (h : ∀ t ∈ ts, Inert user t) {n : Name}
    (hn : word n ∈ ts) : n ∈ Used user f := by
  have hinert := h _ hn
  cases n with
  | ident chars => exact .inr ⟨chars, rfl, .inr (Option.isNone_iff_eq_none.mp hinert)⟩
  | _ => exact Bool.noConfusion hinert

/-- The names of a call are that of the macro, that of the clause macro and
    those of the arguments. -/
theorem used_mapCall {m : Name} (hm : m.maps = true) {args : List (List Tok)}
    (h : ∀ a ∈ args, ∀ t ∈ a, Inert user t) {n : Name} (hn : word n ∈ mapCall m f args) :
    n ∈ Used user f := by
  rcases List.mem_cons.mp hn with hn | hn
  · rw [(Token.name.inj hn).1]
    exact .inl hm
  rcases List.mem_append.mp hn with hn | hn
  · -- The parentheses and the commas are no names.
    have hinside := (List.mem_cons.mp hn).resolve_left (word_ne_lparen n)
    rcases mem_joinArgs hinside with hc | ⟨a, ha, hna⟩
    · exact absurd hc (word_ne_comma n)
    · rcases List.mem_cons.mp ha with rfl | ha
      · rw [(Token.name.inj (List.mem_singleton.mp hna)).1]
        exact .inr ⟨f, rfl, .inl rfl⟩
      · exact used_of_inert (h a ha) hna
  · exact absurd (List.mem_singleton.mp hn) (word_ne_rparen n)

/-- All names of a stage are in use. -/
theorem used_stage (hc : Clause user f body) (turn : Bool) (xs : List (List Tok))
    (hxs : ∀ x ∈ xs, ∀ t ∈ x, Plain user t) (j : Nat) {n : Name}
    (hn : word n ∈ stage f body turn xs j) : n ∈ Used user f := by
  -- The induction is on the items, as the stage is built.
  induction xs generalizing turn j with
  | nil =>
      cases j with
      | zero => exact used_mapCall rfl inert_markers hn
      | succ j => exact absurd hn List.not_mem_nil
  | cons x xs ih =>
      rcases List.forall_mem_cons.mp hxs with ⟨hx, hxs'⟩
      cases j with
      | zero => exact used_mapCall (maps_mapName turn) (inert_args hxs) hn
      | succ j =>
          rcases List.mem_append.mp hn with hn | hn
          · exact used_of_inert (hc.inert_substitute hx) hn
          · exact ih (!turn) hxs' j hn

/-- The texts are the stages of one expansion after another: they are balanced,
    have only names that are in use, and each comes from the one before it. -/
theorem stages (hc : Clause user f body) (turn : Bool) {xs : List (List Tok)}
    (hxs : ∀ x ∈ xs, ∀ t ∈ x, Plain user t) :
    Stages (macros user) (Used user f) (stage f body turn xs) where
  balanced := balanced_stage hc turn xs hxs
  names j _ hn := used_stage hc turn xs hxs j hn
  step _ j hD := emits_stage hc hD turn xs hxs j

/-- The macros that expand again, and `DO_FOREACH`, are not in use while a list
    is mapped. -/
theorem not_used {n : Name} (hmaps : n.maps = false) (hident : ∀ chars, n ≠ .ident chars) :
    n ∉ Used user f := by
  rintro (hn | ⟨chars, hn, _⟩)
  · rw [hmaps] at hn
    exact Bool.false_ne_true hn
  · exact hident chars hn

/-- A name that differs from the one that is added is where it was. -/
theorem not_mem_insert {n m : Name} {B : Set Name} (hne : n ≠ m) (hB : n ∉ B) :
    n ∉ insert m B :=
  fun hn => hn.elim hne hB

/-- `__MAP_H_EVAL` takes its argument 364 stages further than the expansion that
    every argument gets: each macro of the tower is one expansion, and three
    times the one below it. -/
theorem rescans_eval (hc : Clause user f body) (turn : Bool) {xs : List (List Tok)}
    (hxs : ∀ x ∈ xs, ∀ t ∈ x, Plain user t) :
    Rescans (macros user)
      (insert .eval4 (insert .eval3 (insert .eval2 (insert .eval1 (insert .eval0 (Used user f))))))
      (stage f body turn xs) .eval 364 := by
  have hs₀ := stages hc turn hxs
  have hs₁ := hs₀.mono (Set.subset_insert .eval0 _)
  have hs₂ := hs₁.mono (Set.subset_insert .eval1 _)
  have hs₃ := hs₂.mono (Set.subset_insert .eval2 _)
  have hs₄ := hs₃.mono (Set.subset_insert .eval3 _)
  -- Each macro of the tower is new to the ones below it.
  have n₀ : Name.eval0 ∉ Used user f := not_used rfl nofun
  have n₁ : Name.eval1 ∉ insert .eval0 (Used user f) :=
    not_mem_insert nofun (not_used rfl nofun)
  have n₂ : Name.eval2 ∉ insert .eval1 (insert .eval0 (Used user f)) :=
    not_mem_insert nofun (not_mem_insert nofun (not_used rfl nofun))
  have n₃ : Name.eval3 ∉ insert .eval2 (insert .eval1 (insert .eval0 (Used user f))) :=
    not_mem_insert nofun (not_mem_insert nofun (not_mem_insert nofun (not_used rfl nofun)))
  have n₄ : Name.eval4 ∉
      insert .eval3 (insert .eval2 (insert .eval1 (insert .eval0 (Used user f)))) :=
    not_mem_insert nofun (not_mem_insert nofun (not_mem_insert nofun
      (not_mem_insert nofun (not_used rfl nofun))))
  have n₅ : Name.eval ∉
      insert .eval4 (insert .eval3 (insert .eval2 (insert .eval1 (insert .eval0 (Used user f))))) :=
    not_mem_insert nofun (not_mem_insert nofun (not_mem_insert nofun (not_mem_insert nofun
      (not_mem_insert nofun (not_used rfl nofun)))))
  have h₀ := Rescans.identity hs₀ n₀ rfl
  have h₁ := Rescans.triple hs₀ h₀ n₁ rfl
  have h₂ := Rescans.triple hs₁ h₁ n₂ rfl
  have h₃ := Rescans.triple hs₂ h₂ n₃ rfl
  have h₄ := Rescans.triple hs₃ h₃ n₄ rfl
  exact Rescans.triple hs₄ h₄ n₅ rfl

end Stages

/-! ### The whole macro -/

section DoForeach

variable {user : Str → Option (Macro Name Str)} {f : Str} {body : List (Part Name Str)}
  {D : List Name}

/-- `DO_FOREACH(f, x₁, …, xₙ)` as it is written. Without items there is one
    empty argument. -/
def doForeach (f : Str) (xs : List (List Tok)) : List Tok :=
  call .doForeach (joinArgs ([word (.ident f)] :: xs))

/-- The macros that are being replaced around the call are others of the
    program: neither the clause macro nor any of `do_foreach.h`. -/
def Around (user : Str → Option (Macro Name Str)) (f : Str) (D : List Name) : Prop :=
  ∀ n ∈ D, ∃ chars, n = .ident chars ∧ chars ≠ f ∧ user chars ≠ none

/-- While other macros of the program are replaced, everything that mapping uses
    is enabled. -/
theorem Around.used (hD : Around user f D) : ∀ m ∈ Used user f, m ∉ D := by
  intro m hm hmem
  rcases hD m hmem with ⟨chars, rfl, hne, huser⟩
  -- A name in use is none of the program's macros but `f`.
  rcases hm with hm | ⟨chars', hchars, hor⟩
  · exact Bool.noConfusion hm
  · rw [← Name.ident.inj hchars] at hor
    exact hor.elim hne huser

/-- None of the macros of `do_foreach.h` is being replaced around the call. -/
theorem Around.not_mem (hD : Around user f D) {n : Name} (hn : ∀ chars, n ≠ .ident chars) :
    n ∉ D := by
  intro hmem
  rcases hD n hmem with ⟨chars, hchars, _⟩
  exact hn chars hchars

/-- What a call of `DO_FOREACH` is replaced by: the expansions, around the call
    for the first item. -/
theorem substitute_doForeach (f : Str) {xs : List (List Tok)} (hne : xs ≠ []) :
    substitute doForeachBody [[word (.ident f)], joinArgs xs] =
      call .eval (mapCall .map1 f (xs ++ markers)) := by
  have hjoin : joinArgs ([word (.ident f)] :: (xs ++ markers)) =
      word (.ident f) :: .comma :: (joinArgs xs ++ .comma :: joinArgs markers) := by
    rw [joinArgs_cons _ (List.append_ne_nil_of_left_ne_nil hne markers),
      joinArgs_append hne markers_ne_nil]
    rfl
  rw [mapCall, hjoin]
  -- The replacement list is written out, token by token.
  simp only [doForeachBody, endMarker, List.map_cons, List.map_nil, List.cons_append,
    List.nil_append, substitute_lit, substitute_param, substitute_nil, List.getD_cons_zero,
    List.getD_cons_succ, markers, call, word, joinArgs_cons_cons, joinArgs_singleton,
    List.append_assoc]

/-- What `DO_FOREACH` leaves is the text after 365 expansions, the one of the
    argument and the 364 of `__MAP_H_EVAL`. -/
theorem doForeach_stage (hc : Clause user f body) (hD : Around user f D) {xs : List (List Tok)}
    (hne : xs ≠ []) (hxs : ∀ x ∈ xs, ∀ t ∈ x, Plain user t) :
    Emits (macros user) D (doForeach f xs) (stage f body true xs 365) := by
  have hused := hD.used
  have hids := Used.idents hused
  have hf := Used.clause hused
  have hxi : ∀ x ∈ xs, ∀ t ∈ x, Inert user t := fun x hx t ht => (hxs x hx t ht).1
  have hfalone : Expands (macros user) D (toItems [word (.ident f)]) [word (.ident f)] :=
    expands_word hf hc.defined
  -- `f` is in front of a comma, so the clause macro is not called in the argument.
  refine .called_variadic [[word (.ident f)]] xs (hD.not_mem (n := .doForeach) nofun) rfl hne ?_ ?_
    (.cons hfalone (.cons (emits_inert hids (inert_joinArgs hxi)).expands .nil)) ?_
  · exact List.forall_mem_cons.mpr ⟨argument_word _, fun x hx => argument_plain (hxs x hx)⟩
  · exact List.forall_mem_cons.mpr
      ⟨enabled_word hf, fun x hx => enabled_inert hids (hxi x hx)⟩
  rw [substitute_doForeach f hne]
  -- Expanding the argument of `__MAP_H_EVAL` is the first of the 365.
  have hs := stages hc true hxs
  have hD' : ∀ n, n ≠ .doForeach → (∀ chars, n ≠ .ident chars) → n ∉ .doForeach :: D :=
    fun n hn hchars => not_mem_cons hn (hD.not_mem hchars)
  have hused' : ∀ m ∈ Used user f, m ∉ Name.doForeach :: D :=
    not_mem_cons_of_subset (not_used rfl nofun) hused
  have hstart : stage f body true xs 0 = mapCall .map1 f (xs ++ markers) := by
    cases xs with
    | nil => exact absurd rfl hne
    | cons x xs => rfl
  have heval := rescans_eval hc true hxs _ _ 1 (hD' .eval nofun nofun) ?_
    (hs.balanced 0) (hs.enabled hused' 0) (hs.step _ 0 hused').expands
  · rw [← hstart]
    exact heval
  · simp only [Set.forall_mem_insert]
    exact ⟨hD' .eval4 nofun nofun, hD' .eval3 nofun nofun, hD' .eval2 nofun nofun,
      hD' .eval1 nofun nofun, hD' .eval0 nofun nofun, hused'⟩

/-- After as many expansions as there are items, and one for the end, all clauses
    are written and nothing else. -/
theorem stage_of_lt (f : Str) (body : List (Part Name Str)) (turn : Bool) (xs : List (List Tok))
    (j : Nat) (h : xs.length < j) :
    stage f body turn xs j = xs.flatMap fun x => substitute body [x] := by
  -- Each item takes one expansion from the count.
  induction xs generalizing turn j with
  | nil =>
      cases j with
      | zero => exact absurd h (Nat.not_lt_zero 0)
      | succ j => rfl
  | cons x xs ih =>
      cases j with
      | zero => exact absurd h (Nat.not_lt_zero _)
      | succ j => rw [stage, ih (!turn) j (Nat.lt_of_succ_lt_succ h), List.flatMap_cons]

/-- Before that, a call is left behind the clauses that are written: of the macro
    whose turn it is, with the other items, or of `__MAP_H_MAP_END`. -/
theorem stage_of_le (f : Str) (body : List (Part Name Str)) (turn : Bool) (xs : List (List Tok))
    (j : Nat) (h : j ≤ xs.length) :
    ∃ n : Name, n.maps = true ∧
      stage f body turn xs j = ((xs.take j).flatMap fun x => substitute body [x]) ++
        mapCall n f (xs.drop j ++ markers) := by
  -- Each item takes one expansion, and its clause, from the text.
  induction xs generalizing turn j with
  | nil =>
      rw [Nat.le_zero.mp h]
      exact ⟨.mapEnd, rfl, rfl⟩
  | cons x xs ih =>
      cases j with
      | zero => exact ⟨mapName turn, maps_mapName turn, rfl⟩
      | succ j =>
          rcases ih (!turn) j (Nat.le_of_succ_le_succ h) with ⟨n, hn, hstage⟩
          refine ⟨n, hn, ?_⟩
          rw [stage, hstage, List.take_succ_cons, List.drop_succ_cons, List.flatMap_cons,
            List.append_assoc]

/-- With more than 364 items, the clauses of 365 of them are written, and behind
    them a call of one of the macros is left for the rest. -/
theorem doForeach_left (hc : Clause user f body) (hD : Around user f D) {xs : List (List Tok)}
    (hne : xs ≠ []) (hxs : ∀ x ∈ xs, ∀ t ∈ x, Plain user t) (hlen : 364 < xs.length) :
    ∃ n : Name, n.maps = true ∧
      Expands (macros user) D (toItems (doForeach f xs))
        (((xs.take 365).flatMap fun x => substitute body [x]) ++
          mapCall n f (xs.drop 365 ++ markers)) := by
  rcases stage_of_le f body true xs 365 hlen with ⟨n, hn, hstage⟩
  refine ⟨n, hn, ?_⟩
  rw [← hstage]
  exact (doForeach_stage hc hD hne hxs).expands

/-- `DO_FOREACH` writes a clause for every item, in order and nothing else,
    exactly when there are at most 364. -/
theorem doForeach_iff (hc : Clause user f body) (hD : Around user f D) {xs : List (List Tok)}
    (hne : xs ≠ []) (hxs : ∀ x ∈ xs, ∀ t ∈ x, Plain user t) :
    Expands (macros user) D (toItems (doForeach f xs)) (xs.flatMap fun x => substitute body [x]) ↔
      xs.length ≤ 364 := by
  constructor
  · intro h
    by_contra hlen
    -- The name of the macro whose call is left is in no clause.
    rcases doForeach_left hc hD hne hxs (Nat.lt_of_not_le hlen) with ⟨n, hn, hleft⟩
    have hmem : word n ∈ xs.flatMap fun x => substitute body [x] := by
      rw [← hleft.unique h]
      exact List.mem_append_right _ List.mem_cons_self
    rcases List.mem_flatMap.mp hmem with ⟨x, hx, hnx⟩
    have hinert := hc.inert_substitute (hxs x hx) _ hnx
    cases n with
    | ident chars => exact Bool.false_ne_true hn
    | _ => exact Bool.false_ne_true hinert
  · intro hlen
    rw [← stage_of_lt f body true xs 365 (Nat.lt_succ_of_le hlen)]
    exact (doForeach_stage hc hD hne hxs).expands

end DoForeach

end MapMacro

end Nanoservices
