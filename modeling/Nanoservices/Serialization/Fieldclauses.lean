import Nanoservices.Serialization.MapMacro
import Nanoservices.Serialization.Types

/-!
# The Clauses of the Members

`NANOSERVICES2_MAKE_SERIALIZABLE` has `DO_FOREACH` write one clause for each
member, `__NANOSERVICES2_SERIALIZE_FIELDCLAUSE__` into one member function and
`__NANOSERVICES2_DESERIALIZE_FIELDCLAUSE__` into the other. That the functions
go through the members in the order of the list, and through each of them
once, is a fact about the preprocessor, and it has a limit. The names of the
members must be no macros of the program, and there must be members: of an empty
list the macro makes a clause with no member in it.

## Main definitions

* `FieldClause`: The two macros.
* `FieldClause.written`: A clause as it is written for a member.
* `fieldclauses`: Their definitions, over those of the program.

## Theorems

* `FieldClause.clause`: They can be mapped.
* `fieldclauses_iff`: A class can have up to 364 members.
* `fieldclauses_iff_myOuterClass`: A class of the serialization test.
-/

namespace Nanoservices

namespace MapMacro

open Preprocessor

/-- The two macros that are mapped, one for each member function. -/
inductive FieldClause
  | serialize
  | deserialize

namespace FieldClause

/-- The name of the macro in `serialization.h`. -/
def name : FieldClause → Str
  | serialize => str "__NANOSERVICES2_SERIALIZE_FIELDCLAUSE__"
  | deserialize => str "__NANOSERVICES2_DESERIALIZE_FIELDCLAUSE__"

/-- An identifier of the replacement. -/
def ident (s : String) : Tok := word (.ident (str s))

/-- An operator or a semicolon, which the preprocessor only copies. -/
def op (s : String) : Tok := .other (str s)

/-- The tokens of `nanoservices::serializer::`. -/
def scope : List Tok := [ident "nanoservices", op "::", ident "serializer", op "::"]

/-- The replacement list. -/
def body : FieldClause → List (Part Name Str)
  -- result->push_back(nanoservices::serializer::serialize_field(*fieldNamesIter, (FIELDNAME)));
  -- ++fieldNamesIter;
  | serialize => [ident "result", op "->", ident "push_back", .lparen].map .lit ++
      scope.map .lit ++ [ident "serialize_field", .lparen, op "*", ident "fieldNamesIter", .comma,
        .lparen].map .lit ++ [.param 0] ++ [.rparen, .rparen, .rparen, op ";", op "++",
        ident "fieldNamesIter", op ";"].map .lit
  -- nanoservices::serializer::deserialize_field(&(FIELDNAME), *serializerRecordsIter);
  -- ++serializerRecordsIter;
  | deserialize => scope.map .lit ++
      [ident "deserialize_field", .lparen, op "&", .lparen].map .lit ++ [.param 0] ++
        [.rparen, .comma, op "*", ident "serializerRecordsIter", .rparen, op ";", op "++",
        ident "serializerRecordsIter", op ";"].map .lit

/-- The clause that is written for a member: the replacement list, with the name
    of the member in the place of the parameter. -/
def written (c : FieldClause) (member : Identifier) : List Tok :=
  substitute c.body [[word (.ident member.chars)]]

end FieldClause

/-- The macros of `serialization.h` that take part, over those of the rest of
    the program. -/
def fieldclauses (program : Str → Option (Macro Name Str)) (chars : Str) :
    Option (Macro Name Str) :=
  if chars = FieldClause.serialize.name then some ⟨some ⟨1, false⟩, FieldClause.serialize.body⟩
  else if chars = FieldClause.deserialize.name then
    some ⟨some ⟨1, false⟩, FieldClause.deserialize.body⟩
  else program chars

/-- The identifiers of the two replacement lists. Those of the local variables
    are among them. -/
def clauseIdents : List Str :=
  ["nanoservices", "serializer", "serialize_field", "deserialize_field", "result", "push_back",
    "fieldNamesIter", "serializerRecordsIter"].map str

/-- None of them is the name of a clause macro, so each means what the rest of
    the program says. -/
theorem fieldclauses_clauseIdent (program : Str → Option (Macro Name Str)) {chars : Str}
    (h : chars ∈ clauseIdents) : fieldclauses program chars = program chars := by
  have hne : ∀ s ∈ clauseIdents,
      s ≠ FieldClause.serialize.name ∧ s ≠ FieldClause.deserialize.name := by decide
  rw [fieldclauses, if_neg (hne chars h).1, if_neg (hne chars h).2]

/-- A token of a replacement is an identifier from the list, or no name. -/
def isClauseToken : Tok → Bool
  | .name (.ident chars) false => clauseIdents.contains chars
  | .name _ _ => false
  | _ => true

/-- Where the identifiers of the replacements are no macros of the program, the
    preprocessor leaves their tokens alone. -/
theorem inert_of_isClauseToken {program : Str → Option (Macro Name Str)}
    (hprogram : ∀ chars ∈ clauseIdents, program chars = none) {t : Tok}
    (h : isClauseToken t = true) : Inert (fieldclauses program) t := by
  cases t with
  | name n painted =>
      cases n with
      | ident chars =>
          cases painted with
          | true => exact Bool.noConfusion h
          | false =>
              have hmem : chars ∈ clauseIdents := List.contains_iff_mem.mp h
              have hnone := (fieldclauses_clauseIdent program hmem).trans (hprogram chars hmem)
              exact Option.isNone_iff_eq_none.mpr hnone
      | _ => exact Bool.noConfusion h
  | _ => exact rfl

/-- The two replacement lists are made of such tokens. -/
theorem FieldClause.isClauseToken_body (c : FieldClause) {t : Tok} (ht : .lit t ∈ c.body) :
    isClauseToken t = true := by
  -- The lists are gone through, one token after another.
  have hall : (c.body.all fun
      | .lit t => isClauseToken t
      | .param _ => true) = true := by
    cases c <;> rfl
  exact List.all_eq_true.mp hall (.lit t) ht

/-- Their parentheses match, with the parameter inside of them. -/
theorem FieldClause.closes_body (c : FieldClause) : closes 0 c.body = true := by
  cases c <;> rfl

/-- A clause macro can be mapped: it has one parameter, and nothing in its
    replacement list is left to expand. -/
theorem FieldClause.clause (c : FieldClause) {program : Str → Option (Macro Name Str)}
    (hprogram : ∀ chars ∈ clauseIdents, program chars = none) :
    Clause (fieldclauses program) c.name c.body where
  defined := by cases c <;> rfl
  inert _ ht := inert_of_isClauseToken hprogram (c.isClauseToken_body ht)
  balanced x hx :=
    balanced_of_closes (List.forall_mem_singleton.mpr hx.balanced) 0 c.body c.closes_body
      (.zero .nil)

/-- A member, as it is given to the macro: one token, its name. -/
def memberToken (arg : MacroArg) : List Tok := [word (.ident arg.name.chars)]

/-- A member that is no macro is an item for the mapping. -/
theorem plain_memberToken {user : Str → Option (Macro Name Str)} {arg : MacroArg}
    (h : user arg.name.chars = none) : ∀ t ∈ memberToken arg, Plain user t := by
  intro t ht
  rw [List.mem_singleton.mp ht]
  exact ⟨Option.isNone_iff_eq_none.mpr h, word_ne_lparen _, word_ne_rparen _, word_ne_comma _⟩

/-- The member functions of a class go through its members in the order in
    which they are listed, and through each of them once, exactly when there
    are at most 364. With more members the first 365 of them have their clauses,
    and behind these a call of a macro is left in the function. -/
theorem fieldclauses_iff (program : Str → Option (Macro Name Str))
    (hprogram : ∀ chars ∈ clauseIdents, program chars = none) (c : FieldClause) (D : List Name)
    (hD : Around (fieldclauses program) c.name D) {σ : Type} (F : Fields σ) (hne : F.args ≠ [])
    (hplain : ∀ arg ∈ F.args, fieldclauses program arg.name.chars = none) :
    (Expands (macros (fieldclauses program)) D
        (toItems (doForeach c.name (F.args.map memberToken)))
        (F.args.flatMap fun arg => c.written arg.name) ↔ F.args.length ≤ 364) ∧
      (364 < F.args.length → ∃ n : Name, n.maps = true ∧
        Expands (macros (fieldclauses program)) D
          (toItems (doForeach c.name (F.args.map memberToken)))
          (((F.args.take 365).flatMap fun arg => c.written arg.name) ++
            mapCall n c.name ((F.args.drop 365).map memberToken ++ markers))) := by
  -- The members are the items of a mapping, one token each.
  have hclause := c.clause hprogram
  have hnil : F.args.map memberToken ≠ [] := List.map_eq_nil_iff.not.mpr hne
  have hitems : ∀ x ∈ F.args.map memberToken, ∀ t ∈ x, Plain (fieldclauses program) t := by
    intro x hx
    rcases List.mem_map.mp hx with ⟨arg, harg, rfl⟩
    exact plain_memberToken (hplain arg harg)
  constructor
  · have h := doForeach_iff hclause hD hnil hitems
    rwa [List.length_map, List.flatMap_map] at h
  · intro hlen
    have hlen' : 364 < (F.args.map memberToken).length := by
      rw [List.length_map]
      exact hlen
    have h := doForeach_left hclause hD hnil hitems hlen'
    rwa [← List.map_take, ← List.map_drop, List.flatMap_map] at h

/-- A program in which the members are declared inside another macro, which is
    being replaced around the call, as `NANOSERVICES2_MAKE_SERIALIZABLE` is. -/
def declaringMacro (chars : Str) : Option (Macro Name Str) :=
  if chars = str "NANOSERVICES2_MAKE_SERIALIZABLE" then some ⟨some ⟨0, true⟩, []⟩ else none

/-- The one member of the outer class of the serialization test. -/
theorem fieldclauses_iff_myOuterClass :
    (Expands (macros (fieldclauses declaringMacro))
        [.ident (str "NANOSERVICES2_MAKE_SERIALIZABLE")]
        (toItems (doForeach FieldClause.serialize.name (myOuterClassFields.args.map memberToken)))
        (myOuterClassFields.args.flatMap fun arg => FieldClause.serialize.written arg.name) ↔
      myOuterClassFields.args.length ≤ 364) ∧
    (364 < myOuterClassFields.args.length → ∃ n : Name, n.maps = true ∧
      Expands (macros (fieldclauses declaringMacro))
        [.ident (str "NANOSERVICES2_MAKE_SERIALIZABLE")]
        (toItems (doForeach FieldClause.serialize.name (myOuterClassFields.args.map memberToken)))
        (((myOuterClassFields.args.take 365).flatMap fun arg =>
            FieldClause.serialize.written arg.name) ++
          mapCall n FieldClause.serialize.name
            ((myOuterClassFields.args.drop 365).map memberToken ++ markers))) := by
  refine fieldclauses_iff declaringMacro ?_ .serialize _ ?_ myOuterClassFields
    (List.cons_ne_nil _ _) ?_
  · -- The program defines no identifier of the clauses, and not the member.
    have h : ∀ chars ∈ clauseIdents, (declaringMacro chars).isNone = true := by decide
    exact fun chars hc => Option.isNone_iff_eq_none.mp (h chars hc)
  · exact fun n hn => ⟨str "NANOSERVICES2_MAKE_SERIALIZABLE", List.mem_singleton.mp hn, by decide,
      Option.isSome_iff_ne_none.mp (by decide)⟩
  · exact List.forall_mem_singleton.mpr (Option.isNone_iff_eq_none.mp (by decide))

end MapMacro

end Nanoservices
