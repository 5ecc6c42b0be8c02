import Nanoservices.Library.SortedMap
import Nanoservices.Serialization.Record
import Nanoservices.Util.Splitting

/-!
# Serializable Types

The types `serialize_field` and `deserialize_field` can be instantiated at. A
template is instantiated per type, so the model has one syntax of types, `Ty`,
indexed by the Lean type of their values, and every template becomes a
function by recursion on it. `Fields` is the member list of a class made
serializable with `NANOSERVICES2_MAKE_SERIALIZABLE`, and the two are mutual
because a member can itself be a class.

A map type brings the order of its keys along as the `LinearOrder` of their
values. That is `std::less` for the built-in types and the user's `operator<`
for classes; the model asks only that it be a strict total order.

`char` is in the syntax because a program can instantiate the templates at it,
but no branch of the dispatch recognises it. `Supported` leaves it out.

A member can have the name of a local variable of the functions that the macro
generates, and inside the function the name then means the variable. The types
without such members are the `Unshadowed` ones.

What a declaration `T t;` leaves in `t` matters to the decoder, which declares
a fresh object for every list item, key and value. A class says so through its
constructor, and a scalar keeps whatever the storage held, which is the
parameter `Uninit`.

## Main definitions

* `Identifier`, `MacroArg`: A member name as the macro is given it.
* `stringize`: `#__VA_ARGS__`.
* `Ty`, `Fields`: Types and member lists.
* `serializeLocals`, `deserializeLocals`: The variables of the two functions
  that the macro generates.
* `Supported`: Every part of the type is recognised by the dispatch.
* `Unshadowed`: No member is called like one of the given local variables.
* `UnshadowedIn`: The same of the members of the objects in a value.
* `ClassesNonempty`: Every class has a member.
* `defaultInit`: The value of a freshly declared object.
* `ContainersEmpty`: No vector or map reached through class members holds
  anything.
* `ElementsEmpty`: The same of every freshly declared item, key and value.

## Theorems

* `unshadowed_append`: The local variables of two functions.
* `forall_unshadowedIn_iff`: Every class inside a type is that of an object in
  some value.
* `Identifier.trimmed`, `Identifier.comma_not_mem`: What makes an identifier
  survive stringizing and splitting.
-/

namespace Nanoservices

/-- The order of `int32_t` keys, as `std::less` compares them. -/
instance instLinearOrderInt32 : LinearOrder Int32 where
  le_refl := Int32.le_refl
  le_trans _ _ _ := Int32.le_trans
  le_antisymm _ _ := Int32.le_antisymm
  le_total := Int32.le_total
  lt_iff_le_not_ge a b := by
    rw [Int32.not_le]
    exact ⟨fun h => ⟨Int32.le_of_lt h, h⟩, fun h => h.2⟩
  toDecidableLE := inferInstance

/-- The bytes an identifier is written with: letters, digits, the underscore,
    and the bytes of characters beyond ASCII. -/
def isIdentifierChar (c : UInt8) : Bool :=
  (97 ≤ c && c ≤ 122) || (65 ≤ c && c ≤ 90) || (48 ≤ c && c ≤ 57) || c == 95 || 128 ≤ c

/-- The delimiter of a macro argument list. -/
def comma : UInt8 := 44

/-- The name of a class member. It is not empty and is written with identifier
    bytes only, so that neither a comma nor a blank is in it. -/
structure Identifier where
  chars : Str
  ne_nil : chars ≠ []
  valid : ∀ c ∈ chars, isIdentifierChar c = true

/-- An argument of `NANOSERVICES2_MAKE_SERIALIZABLE` with the white space
    around it. -/
structure MacroArg where
  before : Str
  name : Identifier
  after : Str
  before_blank : ∀ c ∈ before, c ∈ whitespace
  after_blank : ∀ c ∈ after, c ∈ whitespace

/-- `#__VA_ARGS__`: the arguments as they are written, with the commas between
    them. White space around an argument is kept, and trimming is left to the
    code that splits the text. -/
def stringize (args : List MacroArg) : Str :=
  [comma].intercalate (args.map fun a => a.before ++ a.name.chars ++ a.after)

mutual
/-- A type a field can have, over the Lean type of its values. -/
inductive Ty : Type → Type 1
  | scalar (s : Scalar) : Ty s.Carrier
  | char : Ty UInt8
  | vector {α : Type} (T : Ty α) : Ty (List α)
  | map {κ ν : Type} [LinearOrder κ] (K : Ty κ) (V : Ty ν) : Ty (SortedMap κ ν)
  /-- A class made serializable, with what its constructor leaves in the
      members. -/
  | cls {σ : Type} (F : Fields σ) (ctor : σ) : Ty σ
/-- The members of a class, in the order the macro lists them. A list of any
    length is one here. The macro itself takes at most 364 members, and with
    more of them the class does not compile; what is proved of classes holds of
    the others as well, but no program has them. -/
inductive Fields : Type → Type 1
  | nil : Fields Unit
  | cons {α σ : Type} (arg : MacroArg) (T : Ty α) (F : Fields σ) : Fields (α × σ)
end

/-- The arguments of the macro. -/
def Fields.args : {σ : Type} → Fields σ → List MacroArg
  | _, .nil => []
  | _, .cons arg _ F => arg :: F.args

/-- The local variables of `__nanoservices2_serializer_serialize` that are in
    scope where the clauses of the members are expanded. -/
def serializeLocals : List Str := [str "result", str "fieldNamesIter"]

/-- The parameter and the local variable of
    `__nanoservices2_serializer_deserialize`. -/
def deserializeLocals : List Str := [str "serializerRecords", str "serializerRecordsIter"]

/-- The variables of both functions. -/
def generatedLocals : List Str := serializeLocals ++ deserializeLocals

/-- The member is called like one of the local variables of a function. In that
    function its name means the variable. -/
def MacroArg.shadowed (locals : List Str) (arg : MacroArg) : Bool :=
  locals.contains arg.name.chars

/-- `std::is_same_v<T, std::vector<char>>`, the test that `serialize_list_field`
    makes of the type of the items. -/
def Ty.isVectorChar : {α : Type} → Ty α → Bool
  | _, .vector .char => true
  | _, _ => false

mutual
/-- Every part of the type is recognised by the dispatch on types. -/
def Ty.Supported : {α : Type} → Ty α → Prop
  | _, .scalar _ => True
  | _, .char => False
  | _, .vector T => T.Supported
  | _, @Ty.map _ _ _ K V => K.Supported ∧ V.Supported
  | _, .cls F _ => F.Supported
def Fields.Supported : {σ : Type} → Fields σ → Prop
  | _, .nil => True
  | _, .cons _ T F => T.Supported ∧ F.Supported
end

mutual
/-- No class inside the type has a member that is called like one of the local
    variables. -/
def Ty.Unshadowed (locals : List Str) : {α : Type} → Ty α → Prop
  | _, .scalar _ => True
  | _, .char => True
  | _, .vector T => T.Unshadowed locals
  | _, @Ty.map _ _ _ K V => K.Unshadowed locals ∧ V.Unshadowed locals
  | _, .cls F _ => F.Unshadowed locals
def Fields.Unshadowed (locals : List Str) : {σ : Type} → Fields σ → Prop
  | _, .nil => True
  | _, .cons arg T F =>
    arg.shadowed locals = false ∧ T.Unshadowed locals ∧ F.Unshadowed locals
end

mutual
/-- No object in the value is of a class with a member that is called like one
    of the local variables. -/
def Ty.UnshadowedIn (locals : List Str) : {α : Type} → Ty α → α → Prop
  | _, .scalar _, _ => True
  | _, .char, _ => True
  | _, .vector T, v => ∀ x ∈ v, T.UnshadowedIn locals x
  | _, @Ty.map _ _ _ K V, m =>
    ∀ e ∈ m.entries, K.UnshadowedIn locals e.1 ∧ V.UnshadowedIn locals e.2
  | _, .cls F _, v => F.UnshadowedIn locals v
def Fields.UnshadowedIn (locals : List Str) : {σ : Type} → Fields σ → σ → Prop
  | _, .nil, _ => True
  | _, .cons arg T F, v =>
    arg.shadowed locals = false ∧ T.UnshadowedIn locals v.1 ∧ F.UnshadowedIn locals v.2
end

mutual
/-- Every class inside the type has a member, as a class must to be made
    serializable. -/
def Ty.ClassesNonempty : {α : Type} → Ty α → Prop
  | _, .scalar _ => True
  | _, .char => True
  | _, .vector T => T.ClassesNonempty
  | _, @Ty.map _ _ _ K V => K.ClassesNonempty ∧ V.ClassesNonempty
  | _, .cls F _ => F.args ≠ [] ∧ F.ClassesNonempty
def Fields.ClassesNonempty : {σ : Type} → Fields σ → Prop
  | _, .nil => True
  | _, .cons _ T F => T.ClassesNonempty ∧ F.ClassesNonempty
end

/-- What storage holds before it is written. -/
structure Uninit where
  scalar : (s : Scalar) → s.Carrier
  char : UInt8

/-- The value of `T t;`. A string is constructed empty, a number is not
    constructed at all. -/
def Ty.defaultInit (u : Uninit) : {α : Type} → Ty α → α
  | _, .scalar .string => []
  | _, .scalar s => u.scalar s
  | _, .char => u.char
  | _, .vector _ => []
  | _, @Ty.map _ _ _ _ _ => SortedMap.empty
  | _, .cls _ ctor => ctor

mutual
/-- The vectors and maps reached through class members hold nothing. -/
def Ty.ContainersEmpty : {α : Type} → Ty α → α → Prop
  | _, .scalar _, _ => True
  | _, .char, _ => True
  | _, .vector _, v => v = []
  | _, @Ty.map _ _ _ _ _, m => m = SortedMap.empty
  | _, .cls F _, v => F.ContainersEmpty v
def Fields.ContainersEmpty : {σ : Type} → Fields σ → σ → Prop
  | _, .nil, _ => True
  | _, .cons _ T F, v => T.ContainersEmpty v.1 ∧ F.ContainersEmpty v.2
end

mutual
/-- Items, keys and values are constructed with empty containers, at every
    depth at which they occur. -/
def Ty.ElementsEmpty (u : Uninit) : {α : Type} → Ty α → Prop
  | _, .scalar _ => True
  | _, .char => True
  | _, .vector T => T.ContainersEmpty (T.defaultInit u) ∧ T.ElementsEmpty u
  | _, @Ty.map _ _ _ K V => (K.ContainersEmpty (K.defaultInit u) ∧ K.ElementsEmpty u) ∧
      V.ContainersEmpty (V.defaultInit u) ∧ V.ElementsEmpty u
  | _, .cls F _ => F.ElementsEmpty u
def Fields.ElementsEmpty (u : Uninit) : {σ : Type} → Fields σ → Prop
  | _, .nil => True
  | _, .cons _ T F => T.ElementsEmpty u ∧ F.ElementsEmpty u
end

/-- A name that is in neither of two lists is not in the one and not in the
    other. -/
theorem shadowed_append (locals locals' : List Str) (arg : MacroArg) :
    arg.shadowed (locals ++ locals') = false ↔
      arg.shadowed locals = false ∧ arg.shadowed locals' = false := by
  unfold MacroArg.shadowed
  rw [List.contains_append, Bool.or_eq_false_iff]

/-- A member that neither function hides is one that the encoder and the decoder
    both see. -/
theorem shadowed_generatedLocals (arg : MacroArg) :
    arg.shadowed generatedLocals = false ↔
      arg.shadowed serializeLocals = false ∧ arg.shadowed deserializeLocals = false :=
  shadowed_append serializeLocals deserializeLocals arg

mutual
/-- The local variables of two functions are those of the one and those of the
    other. -/
theorem unshadowed_append (locals locals' : List Str) : ∀ {α : Type} (T : Ty α),
    T.Unshadowed (locals ++ locals') ↔ T.Unshadowed locals ∧ T.Unshadowed locals'
  | _, .scalar _ => iff_of_true trivial ⟨trivial, trivial⟩
  | _, .char => iff_of_true trivial ⟨trivial, trivial⟩
  | _, .vector T => unshadowed_append locals locals' T
  | _, @Ty.map _ _ _ K V => by
      unfold Ty.Unshadowed
      rw [unshadowed_append locals locals' K, unshadowed_append locals locals' V]
      exact and_and_and_comm
  | _, .cls F _ => unshadowedFields_append locals locals' F
/-- The same of the members of a class. -/
theorem unshadowedFields_append (locals locals' : List Str) : ∀ {σ : Type} (F : Fields σ),
    F.Unshadowed (locals ++ locals') ↔ F.Unshadowed locals ∧ F.Unshadowed locals'
  | _, .nil => iff_of_true trivial ⟨trivial, trivial⟩
  | _, .cons arg T F => by
      unfold Fields.Unshadowed
      rw [shadowed_append, unshadowed_append locals locals' T,
        unshadowedFields_append locals locals' F]
      -- The member's name, its type and the remaining members, each for both
      -- lists.
      constructor
      · rintro ⟨⟨harg, harg'⟩, ⟨hT, hT'⟩, hF, hF'⟩
        exact ⟨⟨harg, hT, hF⟩, harg', hT', hF'⟩
      · rintro ⟨⟨harg, hT, hF⟩, harg', hT', hF'⟩
        exact ⟨⟨harg, harg'⟩, ⟨hT, hT'⟩, hF, hF'⟩
end

/-- A type without hidden members is one that is without them in the encoder and
    in the decoder. -/
theorem unshadowed_generatedLocals {α : Type} (T : Ty α) :
    T.Unshadowed generatedLocals ↔
      T.Unshadowed serializeLocals ∧ T.Unshadowed deserializeLocals :=
  unshadowed_append serializeLocals deserializeLocals T

mutual
/-- The objects in a value are of classes inside its type. -/
theorem unshadowedIn_of_unshadowed (locals : List Str) : ∀ {α : Type} (T : Ty α),
    T.Unshadowed locals → ∀ v : α, T.UnshadowedIn locals v
  | _, .scalar _, _, _ => trivial
  | _, .char, _, _ => trivial
  | _, .vector T, h, _ => by
      intro x _
      exact unshadowedIn_of_unshadowed locals T h x
  | _, @Ty.map _ _ _ K V, h, _ => by
      intro e _
      have hkey := unshadowedIn_of_unshadowed locals K h.1 e.1
      have hvalue := unshadowedIn_of_unshadowed locals V h.2 e.2
      exact ⟨hkey, hvalue⟩
  | _, .cls F _, h, v => unshadowedFieldsIn_of_unshadowed locals F h v
/-- The same of the objects in the members of an object. -/
theorem unshadowedFieldsIn_of_unshadowed (locals : List Str) : ∀ {σ : Type} (F : Fields σ),
    F.Unshadowed locals → ∀ v : σ, F.UnshadowedIn locals v
  | _, .nil, _, _ => trivial
  | _, .cons _ T F, h, v => ⟨h.1, unshadowedIn_of_unshadowed locals T h.2.1 v.1,
      unshadowedFieldsIn_of_unshadowed locals F h.2.2 v.2⟩
end

mutual
/-- A class inside the type is that of an object in some value: one item, or
    one entry, is enough to come to it. -/
theorem unshadowed_of_forall (u : Uninit) (locals : List Str) : ∀ {α : Type} (T : Ty α),
    (∀ v : α, T.UnshadowedIn locals v) → T.Unshadowed locals
  | _, .scalar _, _ => trivial
  | _, .char, _ => trivial
  | _, .vector T, h => by
      refine unshadowed_of_forall u locals T ?_
      intro x
      exact h [x] x List.mem_cons_self
  | _, @Ty.map κ ν _ K V, h => by
      -- Every key and every value is in a map of one entry.
      have hentry : ∀ (k : κ) (x : ν), K.UnshadowedIn locals k ∧ V.UnshadowedIn locals x := by
        intro k x
        exact h (SortedMap.empty.insert k x) (k, x) List.mem_cons_self
      have hK := unshadowed_of_forall u locals K fun k => (hentry k (V.defaultInit u)).1
      have hV := unshadowed_of_forall u locals V fun x => (hentry (K.defaultInit u) x).2
      exact ⟨hK, hV⟩
  | _, .cls F ctor, h => unshadowedFields_of_forall u locals F ctor h
/-- The same of the members of a class. An object of the class is given, to fill
    the other members with. -/
theorem unshadowedFields_of_forall (u : Uninit) (locals : List Str) : ∀ {σ : Type} (F : Fields σ),
    σ → (∀ v : σ, F.UnshadowedIn locals v) → F.Unshadowed locals
  | _, .nil, _, _ => trivial
  | _, .cons _ T F, v₀, h => by
      -- One member varies while the others are those of the given object.
      have hT := unshadowed_of_forall u locals T fun x => (h (x, v₀.2)).2.1
      have hF := unshadowedFields_of_forall u locals F v₀.2 fun xs => (h (v₀.1, xs)).2.2
      exact ⟨(h v₀).1, hT, hF⟩
end

/-- A type has no hidden members exactly if none of its values reaches an object
    with one. -/
theorem forall_unshadowedIn_iff (u : Uninit) (locals : List Str) {α : Type} (T : Ty α) :
    (∀ v : α, T.UnshadowedIn locals v) ↔ T.Unshadowed locals :=
  ⟨unshadowed_of_forall u locals T, unshadowedIn_of_unshadowed locals T⟩

/-- The tag of a type's records. -/
def Ty.recordType : {α : Type} → Ty α → RecordType
  | _, .scalar s => s.recordType
  | _, .char => .nullValue
  | _, .vector _ => .list
  | _, @Ty.map _ _ _ _ _ => .map
  | _, .cls _ _ => .serializableClass

namespace Identifier

/-- A byte that is not one of an identifier is not in a name. -/
theorem not_mem_of_not_char (name : Identifier) (c : UInt8) (hc : isIdentifierChar c = false) :
    c ∉ name.chars := by
  intro h
  rw [name.valid c h] at hc
  exact Bool.noConfusion hc

/-- A name does not end an argument. -/
theorem comma_not_mem (name : Identifier) : comma ∉ name.chars :=
  name.not_mem_of_not_char comma (by decide)

/-- No byte of a name is white space. -/
theorem not_blank (name : Identifier) (c : UInt8) (h : c ∈ name.chars) : c ∉ whitespace := by
  intro hw
  -- No blank is a byte of an identifier.
  have hall : (whitespace.all fun b => !isIdentifierChar b) = true := by decide
  have hc := List.all_eq_true.mp hall c hw
  rw [Bool.not_eq_true'] at hc
  exact name.not_mem_of_not_char c hc h

/-- Trimming leaves a name as it is, since it neither begins nor ends with white
    space. -/
theorem trimmed (name : Identifier) : Trimmed name.chars :=
  ⟨fun c hc => name.not_blank c (List.mem_of_mem_head? hc),
    fun c hc => name.not_blank c (List.mem_of_mem_getLast? hc)⟩

end Identifier

/-! ### Two classes

The classes of the repository's serialization test, one inside the other. -/

/-- Storage that was zeroed. -/
def Uninit.zeroed : Uninit where
  scalar
    | .string => []
    | .int8 => 0
    | .uInt8 => 0
    | .int16 => 0
    | .uInt16 => 0
    | .int32 => 0
    | .uInt32 => 0
    | .int64 => 0
    | .uInt64 => 0
    | .float => 0
    | .double => 0
  char := 0

/-- The first argument of a macro. -/
def firstArg (name : Identifier) : MacroArg :=
  ⟨[], name, [], fun _ hc => absurd hc List.not_mem_nil, fun _ hc => absurd hc List.not_mem_nil⟩

/-- An argument after a comma and a space. -/
def nextArg (name : Identifier) : MacroArg :=
  ⟨[32], name, [], List.forall_mem_singleton.mpr List.mem_cons_self,
    fun _ hc => absurd hc List.not_mem_nil⟩

/-- An identifier in ASCII. -/
def identifier (s : String) (ne_nil : str s ≠ [])
    (valid : (str s).all isIdentifierChar = true) : Identifier :=
  ⟨str s, ne_nil, List.all_eq_true.mp valid⟩

/-- The type of `mapField`, `std::map<int32_t, std::string>`. -/
def mapFieldTy : Ty (SortedMap Int32 Str) := @Ty.map Int32 Str _ (.scalar .int32) (.scalar .string)

/-- `MyInnerClass` -/
def myInnerClass : Ty (Int32 × SortedMap Int32 Str × List (BitVec 64) × Unit) :=
  .cls (.cons (firstArg (identifier "int32Field" (by decide) (by decide))) (.scalar .int32)
    (.cons (nextArg (identifier "mapField" (by decide) (by decide))) mapFieldTy
      (.cons (nextArg (identifier "vectorField" (by decide) (by decide)))
        (.vector (.scalar .double)) .nil)))
    (0, SortedMap.empty, [], ())

/-- The members of `MyOuterClass`. -/
def myOuterClassFields :
    Fields (SortedMap UInt8 (Int32 × SortedMap Int32 Str × List (BitVec 64) × Unit) × Unit) :=
  .cons (firstArg (identifier "enclosingField" (by decide) (by decide)))
    (@Ty.map UInt8 _ _ (.scalar .uInt8) myInnerClass) .nil

/-- `MyOuterClass` -/
def myOuterClass :
    Ty (SortedMap UInt8 (Int32 × SortedMap Int32 Str × List (BitVec 64) × Unit) × Unit) :=
  .cls myOuterClassFields (SortedMap.empty, ())

/-- The object the test serializes. -/
def outer1 : SortedMap UInt8 (Int32 × SortedMap Int32 Str × List (BitVec 64) × Unit) × Unit :=
  (SortedMap.empty.insert 15
    (234, SortedMap.empty.insert 32 (str "Hallo"), [0, 0x3FF3AE147AE147AE], ()), ())

/-- Every member of the test's classes is of a type that the dispatch
    recognises. -/
theorem myOuterClass_supported : myOuterClass.Supported :=
  ⟨⟨trivial, trivial, ⟨trivial, trivial⟩, trivial, trivial⟩, trivial⟩

/-- None of their members is called like a variable of the generated functions. -/
theorem myOuterClass_unshadowed : myOuterClass.Unshadowed generatedLocals :=
  ⟨by decide, ⟨trivial, by decide, trivial, by decide, ⟨trivial, trivial⟩, by decide, trivial,
    trivial⟩, trivial⟩

/-- Their constructors leave the containers empty. -/
theorem myOuterClass_elementsEmpty : myOuterClass.ElementsEmpty .zeroed := by
  -- A freshly constructed inner object, the value of the outer map.
  have hctor : myInnerClass.ContainersEmpty (myInnerClass.defaultInit .zeroed) :=
    ⟨trivial, rfl, rfl, trivial⟩
  have hinner : myInnerClass.ElementsEmpty .zeroed :=
    ⟨trivial, ⟨⟨trivial, trivial⟩, trivial, trivial⟩, ⟨trivial, trivial⟩, trivial⟩
  exact ⟨⟨⟨trivial, trivial⟩, hctor, hinner⟩, trivial⟩

/-! ### Two classes with hidden members -/

/-- `result` is the name of a variable of the encoder. -/
theorem result_ne_nil : str "result" ≠ [] := by decide

theorem result_valid : (str "result").all isIdentifierChar = true := by decide

/-- `serializerRecords` is the parameter of the decoder. -/
theorem serializerRecords_ne_nil : str "serializerRecords" ≠ [] := by decide

theorem serializerRecords_valid : (str "serializerRecords").all isIdentifierChar = true := by
  decide

/-- A class with a number that is called like the result of
    `__nanoservices2_serializer_serialize`. -/
def resultClass : Ty (Int32 × Unit) :=
  .cls (.cons (firstArg (identifier "result" result_ne_nil result_valid)) (.scalar .int32) .nil)
    (0, ())

/-- A class with a map that is called like the parameter of
    `__nanoservices2_serializer_deserialize`. -/
def serializerRecordsClass : Ty (SortedMap Int32 Str × Unit) :=
  .cls (.cons (firstArg (identifier "serializerRecords" serializerRecords_ne_nil
    serializerRecords_valid)) mapFieldTy .nil) (SortedMap.empty, ())

end Nanoservices
