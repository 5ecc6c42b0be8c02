import Mathlib.Logic.Relation
import Nanoservices.Logging.Level
import Nanoservices.Util.Splitting

/-!
# What a Level Name Stands For

`logging_level_by_name` compares one form of its argument, trimmed and in upper
case, with a table of names; every other form stands for the default level.
That the fallback ends after one more call is a fact about the default: its own
form is in the table.

The form does not see how a name was spelled. An edit that puts blanks around a
name, takes them away or changes the case of letters leaves it as it is, and so
do edits one after another (`upperForm_respelled`).

`spdlog` has a table of its own, against which the names are checked one by
one. All but one of them stand for the same level in both: `warning`, which is
what `spdlog` calls the level `warn`, is missing here and falls through to the
default.

## Main definitions

* `upperForm`: The form of a name that is compared.
* `acceptedNames`: The names it is compared with, and their levels.
* `Respelling`, `Respelled`: Edits of a name.
* `lowerForm`: The form in which `spdlog` has its names.
* `Recognised`: The names `from_str` knows.

## Theorems

* `loggingLevelByName_eq`: One call of the function.
* `loggingLevelByName_cString`: The level of a name, by the table.
* `upperForm_respelled`: Respelling a name does not change its form.
* `loggingLevelByName_respelled`: Nor its level.
* `loggingLevelByName_spdlog_iff`: Which names stand for the level they have in
  `spdlog`.
-/

namespace Nanoservices

namespace Logging

/-- The form of a name that is compared. -/
def upperForm (name : Str) : Str := strToUpperCopy (strTrimCopy name)

/-- The names that the form is compared with, and the level of each. -/
def acceptedNames : List (Str × LevelEnum) :=
  [(str "OFF", .off), (str "FATAL", .critical), (str "CRITICAL", .critical), (str "ERROR", .err),
    (str "ERR", .err), (str "WARN", .warn), (str "INFO", .info), (str "DEBUG", .debug),
    (str "TRACE", .trace), (str "ALL", .trace)]

/-- A lookup compares the key with one entry after another. -/
theorem lookup_cons_elim {α β γ : Type} [BEq α] [LawfulBEq α] [DecidableEq α] (a k : α) (b : β)
    (es : List (α × β)) (g : γ) (f : β → γ) :
    (((k, b) :: es).lookup a).elim g f = if a = k then f b else (es.lookup a).elim g f := by
  by_cases h : a = k
  · rw [if_pos h, h, List.lookup_cons_self, Option.elim_some]
  · rw [if_neg h, List.lookup_cons, beq_eq_false_iff_ne.mpr h]

/-- One call looks the form up, and goes on with the default if it is not
    there. -/
theorem loggingLevelByName_eq (calls : Nat) (name : Str) :
    loggingLevelByName (calls + 1) name =
      (acceptedNames.lookup (upperForm (cString name))).elim
        (loggingLevelByName calls loggingLevelnameDefault) .ok := by
  rw [loggingLevelByName, ← upperForm]
  simp only [acceptedNames, lookup_cons_elim, List.lookup_nil, Option.elim_none, ite_or]

/-- The default is in the table, so a call with it makes no further one. -/
theorem loggingLevelByName_default (calls : Nat) :
    loggingLevelByName (calls + 1) loggingLevelnameDefault = .ok .info := by
  rw [loggingLevelByName_eq calls loggingLevelnameDefault]
  rfl

/-- With one further call at most, every C string has a level. -/
theorem loggingLevelByName_cString (calls : Nat) (name : Str) :
    loggingLevelByName (calls + 2) name =
      .ok ((acceptedNames.lookup (upperForm (cString name))).getD .info) := by
  rw [loggingLevelByName_eq (calls + 1) name]
  cases acceptedNames.lookup (upperForm (cString name)) with
  | some l => rfl
  | none => exact loggingLevelByName_default calls

/-- Without NUL bytes that is the level of the whole name. -/
theorem loggingLevelByName_returns (calls : Nat) (name : Str) (h0 : (0 : UInt8) ∉ name) :
    loggingLevelByName (calls + 2) name =
      .ok ((acceptedNames.lookup (upperForm name)).getD .info) := by
  rw [loggingLevelByName_cString, cString_of_not_mem name h0]

/-! ### Spellings of a name -/

/-- The same byte, or the same ASCII letter in the other case. -/
def SameLetter (c c' : UInt8) : Prop :=
  c' = c ∨ ((65 ≤ c ∧ c ≤ 90) ∧ c' = c + 32) ∨ ((97 ≤ c ∧ c ≤ 122) ∧ c' = c - 32)

/-- One edit of a name: blanks are put around it or taken away, or letters
    change their case. -/
inductive Respelling : Str → Str → Prop
  | pad (p s q : Str) (hp : Blank p) (hq : Blank q) : Respelling s (p ++ s ++ q)
  | strip (p s q : Str) (hp : Blank p) (hq : Blank q) : Respelling (p ++ s ++ q) s
  | recase (s s' : Str) (h : List.Forall₂ SameLetter s s') : Respelling s s'

/-- Any number of edits, one after another. -/
def Respelled : Str → Str → Prop := Relation.ReflTransGen Respelling

/-- Both cases of a letter have the same capital. -/
theorem toupper_sameLetter (c c' : UInt8) (h : SameLetter c c') : toupper c' = toupper c := by
  unfold SameLetter at h
  unfold toupper
  grind

/-- No letter is a blank, nor is its capital. -/
theorem toupper_mem_whitespace (c : UInt8) : toupper c ∈ whitespace ↔ c ∈ whitespace := by
  rw [mem_whitespace_iff, mem_whitespace_iff]
  unfold toupper
  grind

/-- Names that differ in the case of letters have the same capitals. -/
theorem strToUpperCopy_forall₂ (s s' : Str) (h : List.Forall₂ SameLetter s s') :
    strToUpperCopy s' = strToUpperCopy s := by
  induction h with
  | nil => rfl
  | cons hc _ ih =>
      rw [strToUpperCopy, strToUpperCopy, List.map_cons, List.map_cons, toupper_sameLetter _ _ hc]
      exact congrArg _ ih

/-- It does not matter whether a name is trimmed before its letters change or
    after. -/
theorem upperForm_eq (s : Str) : upperForm s = strTrimCopy (strToUpperCopy s) :=
  (strTrimCopy_map toupper toupper_mem_whitespace s).symm

/-- One edit does not change the form. -/
theorem upperForm_respelling (s s' : Str) (h : Respelling s s') : upperForm s' = upperForm s := by
  cases h with
  | pad p s q hp hq => rw [upperForm, strTrimCopy_pad p s q hp hq, upperForm]
  | strip p s q hp hq => rw [upperForm, upperForm, strTrimCopy_pad p _ q hp hq]
  | recase s s' h => rw [upperForm_eq, upperForm_eq, strToUpperCopy_forall₂ s s' h]

/-- So any number of them does not. -/
theorem upperForm_respelled (s s' : Str) (h : Respelled s s') : upperForm s' = upperForm s := by
  induction h with
  | refl => rfl
  | tail _ hedit ih => rw [upperForm_respelling _ _ hedit, ih]

/-- NUL is not a blank. -/
theorem zero_not_mem_blank (p : Str) (hp : Blank p) : (0 : UInt8) ∉ p := by
  intro h
  exact absurd (hp 0 h) (by decide)

/-- A change of case makes no NUL. -/
theorem zero_not_mem_forall₂ (s s' : Str) (h : List.Forall₂ SameLetter s s')
    (h0 : (0 : UInt8) ∉ s) : (0 : UInt8) ∉ s' := by
  induction h with
  | nil => exact h0
  | cons hc _ ih =>
      rw [List.mem_cons, not_or] at h0 ⊢
      refine ⟨?_, ih h0.2⟩
      -- A letter in the other case is a letter.
      have hne := h0.1
      unfold SameLetter at hc
      grind

/-- No edit brings in a NUL. -/
theorem zero_not_mem_respelled (s s' : Str) (h : Respelled s s') (h0 : (0 : UInt8) ∉ s) :
    (0 : UInt8) ∉ s' := by
  induction h with
  | refl => exact h0
  | tail _ hedit ih =>
      cases hedit with
      | pad p s q hp hq =>
          simp only [List.mem_append, not_or]
          exact ⟨⟨zero_not_mem_blank p hp, ih⟩, zero_not_mem_blank q hq⟩
      | strip p s q hp hq =>
          simp only [List.mem_append, not_or] at ih
          exact ih.1.2
      | recase _ _ hcase => exact zero_not_mem_forall₂ _ _ hcase ih

/-- A name without NUL bytes has a level after one further call at most, and
    every respelling of it has the same; a name that is none of the accepted
    ones has the level of the default. -/
theorem loggingLevelByName_respelled (s : Str) (h0 : (0 : UInt8) ∉ s) (calls : Nat) :
    (∀ s', Respelled s s' → ∃ l, loggingLevelByName (calls + 2) s = .ok l ∧
      loggingLevelByName (calls + 2) s' = .ok l) ∧
    (upperForm s ∉ acceptedNames.map Prod.fst → ∃ l, loggingLevelByName (calls + 2) s = .ok l ∧
      loggingLevelByName (calls + 2) loggingLevelnameDefault = .ok l) := by
  constructor
  · intro s' h
    have h0' := zero_not_mem_respelled s s' h h0
    -- The level is that of the form, and the form is the same.
    refine ⟨_, loggingLevelByName_returns calls s h0, ?_⟩
    rw [loggingLevelByName_returns calls s' h0', upperForm_respelled s s' h]
  · intro hnone
    -- A form that is not in the table makes the function call itself once.
    have hlookup : acceptedNames.lookup (upperForm s) = none := by
      rw [List.lookup_eq_none_iff]
      intro e he
      rw [bne_iff_ne]
      intro heq
      exact hnone (heq ▸ List.mem_map_of_mem he)
    refine ⟨.info, ?_, loggingLevelByName_default (calls + 1)⟩
    rw [loggingLevelByName_returns calls s h0, hlookup]
    rfl

/-- A name in mixed case with blanks before it, and a name that is none. -/
theorem loggingLevelByName_respelled_samples :
    (∃ l, loggingLevelByName 2 (str "error") = .ok l ∧
      loggingLevelByName 2 (str " \tErRor") = .ok l) ∧
    ∃ l, loggingLevelByName 2 (str "verbose") = .ok l ∧
      loggingLevelByName 2 loggingLevelnameDefault = .ok l := by
  constructor
  · refine (loggingLevelByName_respelled (str "error") (by decide) 0).1 _ ?_
    have hcase : Respelling (str "error") (str "ErRor") := by
      -- Two of the letters change, and blanks are put in front.
      refine .recase _ _ ?_
      refine .cons (Or.inr (Or.inr ?_)) (.cons (Or.inl rfl) (.cons (Or.inr (Or.inr ?_))
        (.cons (Or.inl rfl) (.cons (Or.inl rfl) .nil))))
      · decide
      · decide
    exact .tail (.single hcase) (.pad (str " \t") (str "ErRor") [] (by decide) (by decide))
  · exact (loggingLevelByName_respelled (str "verbose") (by decide) 0).2 (by decide)

/-! ### The names of spdlog -/

/-- `tolower` of the classic locale. -/
def tolower (ch : UInt8) : UInt8 := if 65 ≤ ch ∧ ch ≤ 90 then ch + 32 else ch

/-- The form in which `spdlog` has its names. -/
def lowerForm (name : Str) : Str := (strTrimCopy name).map tolower

/-- The names `from_str` knows: those in the table and the two short ones. -/
def Recognised (name : Str) : Prop :=
  name ∈ levelStringViews ++ [str "warn", str "err"]

/-- The capital of a letter is that of its small letter. -/
theorem toupper_tolower (c : UInt8) : toupper (tolower c) = toupper c := by
  unfold toupper tolower
  grind

/-- No letter is a blank, nor is its small letter. -/
theorem tolower_mem_whitespace (c : UInt8) : tolower c ∈ whitespace ↔ c ∈ whitespace := by
  rw [mem_whitespace_iff, mem_whitespace_iff]
  unfold tolower
  grind

/-- The upper case form is that of the lower case form. -/
theorem upperForm_lowerForm (s : Str) : upperForm s = strToUpperCopy (lowerForm s) := by
  rw [upperForm, strToUpperCopy, strToUpperCopy, lowerForm, List.map_map]
  refine List.map_congr_left ?_
  intro c _
  exact (toupper_tolower c).symm

/-- A name whose lower case form has no NUL byte has none itself. -/
theorem zero_not_mem_of_lowerForm (s : Str) (h : (0 : UInt8) ∉ lowerForm s) : (0 : UInt8) ∉ s := by
  rcases strTrimCopy_spec s with ⟨_, p, q, hs, hp, hq⟩
  have htrim : (0 : UInt8) ∉ strTrimCopy s := by
    intro h0
    exact h (List.mem_map_of_mem h0)
  rw [hs]
  simp only [List.mem_append, not_or]
  exact ⟨⟨zero_not_mem_blank p hp, htrim⟩, zero_not_mem_blank q hq⟩

/-- Blanks around a name are not seen, whatever its case. -/
theorem lowerForm_pad (p t q name : Str) (hp : Blank p) (hq : Blank q) (hname : Trimmed name)
    (ht : t.map tolower = name) : lowerForm (p ++ t ++ q) = name := by
  rw [lowerForm, strTrimCopy_pad p t q hp hq, ← strTrimCopy_map tolower tolower_mem_whitespace, ht,
    strTrimCopy_of_trimmed name hname]

/-- The names that both sides list stand for the same level, and `warning` is
    the one name that is not listed here. -/
theorem accepted_iff_of_recognised : ∀ name ∈ levelStringViews ++ [str "warn", str "err"],
    (0 : UInt8) ∉ name ∧
      ((acceptedNames.lookup (strToUpperCopy name)).getD .info = fromStr name ↔
        name ≠ str "warning") := by
  decide

/-- The level of a name that `spdlog` knows is the one `spdlog` gives it,
    except for `warning`. -/
theorem loggingLevelByName_eq_fromStr_iff (s : Str) (h : Recognised (lowerForm s)) (calls : Nat) :
    loggingLevelByName (calls + 2) s = .ok (fromStr (lowerForm s)) ↔
      lowerForm s ≠ str "warning" := by
  rcases accepted_iff_of_recognised _ h with ⟨h0, hiff⟩
  rw [loggingLevelByName_returns calls s (zero_not_mem_of_lowerForm s h0), upperForm_lowerForm,
    Except.ok.injEq, hiff]

/-- What `to_string_view` gives is a name that `from_str` takes back. -/
theorem toStringView_spec (l : LevelEnum) (name : Str) (h : toStringView l = .ok name) :
    Trimmed name ∧ Recognised name ∧ fromStr name = l ∧ (name ≠ str "warning" ↔ l ≠ .warn) := by
  unfold Recognised
  cases l with
  | nLevels =>
      -- The counter is past the end of the table.
      have herr : toStringView .nLevels = .error .outOfBounds := rfl
      rw [herr] at h
      simp only [reduceCtorEq] at h
  | trace | debug | info | warn | err | critical | off =>
      rw [← Except.ok.inj h]
      decide

/-- The level of a name that `spdlog` knows is the one `spdlog` gives it exactly
    if the name is not `warning`; so a level is found under every spelling of
    the name `spdlog` prints for it exactly if it is not `warn`. -/
theorem loggingLevelByName_spdlog_iff (calls : Nat) :
    (∀ s, Recognised (lowerForm s) →
      (loggingLevelByName (calls + 2) s = .ok (fromStr (lowerForm s)) ↔
        lowerForm s ≠ str "warning")) ∧
    (∀ l name, toStringView l = .ok name → ∀ p t q, Blank p → Blank q → t.map tolower = name →
      (loggingLevelByName (calls + 2) (p ++ t ++ q) = .ok l ↔ l ≠ .warn)) := by
  constructor
  · intro s h
    exact loggingLevelByName_eq_fromStr_iff s h calls
  · intro l name hl p t q hp hq ht
    rcases toStringView_spec l name hl with ⟨htrimmed, hrec, hfrom, hwarn⟩
    -- What `spdlog` looks up is its own name again.
    have hlower := lowerForm_pad p t q name hp hq htrimmed ht
    have hiff := loggingLevelByName_eq_fromStr_iff (p ++ t ++ q) (hlower ▸ hrec) calls
    rw [hlower, hfrom] at hiff
    rw [hiff, hwarn]

/-- A padded `CRITICAL` is critical, and `Warning` is not a warning. -/
theorem loggingLevelByName_spdlog_iff_samples :
    loggingLevelByName 2 (str " CRITICAL") = .ok .critical ∧
      loggingLevelByName 2 (str "Warning") ≠ .ok .warn := by
  constructor
  · exact ((loggingLevelByName_spdlog_iff 0).2 .critical (str "critical") rfl (str " ")
      (str "CRITICAL") [] (by decide) (by decide) (by decide)).mpr (by decide)
  · have hrec : Recognised (lowerForm (str "Warning")) := by
      unfold Recognised
      decide
    have hiff := (loggingLevelByName_spdlog_iff 0).1 (str "Warning") hrec
    exact hiff.not.mpr (not_not.mpr rfl)

/-- The name `spdlog` has for the level `warn` stands for the default. -/
theorem not_loggingLevelByName_warning :
    ¬ ((∀ s, Recognised (lowerForm s) →
        loggingLevelByName 2 s = .ok (fromStr (lowerForm s))) ∧
      ∀ l name, toStringView l = .ok name → ∀ p t q, Blank p → Blank q → t.map tolower = name →
        loggingLevelByName 2 (p ++ t ++ q) = .ok l) := by
  rintro ⟨h, _⟩
  have hrec : Recognised (lowerForm (str "warning")) := by
    unfold Recognised
    decide
  have hwarn := h (str "warning") hrec
  rw [loggingLevelByName_returns 0 _ (by decide)] at hwarn
  exact absurd hwarn (by decide)

end Logging

end Nanoservices
