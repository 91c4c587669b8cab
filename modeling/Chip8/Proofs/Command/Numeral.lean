import Mathlib.Data.List.TakeWhile
import Chip8.Command.Numeral

/-!
# What numerals stand for

A numeral is one plus sign or none, and then at least one digit; its value is that of its digits to
the base ten, and stays below the bound. Reading finds exactly these values. A text that is no
numeral is either empty, or its first digits reach the bound already, or else it has a wrong
character, and this is the defect that reading reports.
-/

namespace Chip8.Numeral

theorem le_ofDigitChars (value : Nat) (digits : List Char) :
    value ≤ Nat.ofDigitChars 10 digits value := by
  induction digits generalizing value with
  | nil => exact Nat.le_refl value
  | cons digit rest ih =>
      rw [Nat.ofDigitChars_cons]
      exact Nat.le_trans (by omega) (ih _)

theorem readDigits_cons_of_isDigit {digit : Char} (single : digit.isDigit) (value : Nat)
    (rest : List Char) :
    readDigits value (digit :: rest) =
      if 10 * value + (digit.toNat - '0'.toNat) < bound then
        readDigits (10 * value + (digit.toNat - '0'.toNat)) rest
      else
        .error .tooLarge := by
  rw [readDigits, if_pos single, Nat.mul_comm value 10]
  rfl

/-- Only the digits up to the first other character can grow too large. -/
theorem readDigits_eq {value : Nat} (small : value < bound) (characters : List Char) :
    readDigits value characters =
      if bound ≤ Nat.ofDigitChars 10 (characters.takeWhile Char.isDigit) value then
        .error .tooLarge
      else if characters.all Char.isDigit then
        .ok (Nat.ofDigitChars 10 characters value)
      else
        .error .invalidDigit := by
  induction characters generalizing value with
  | nil => simp [readDigits, Nat.ofDigitChars_nil, Nat.not_le.mpr small]
  | cons character rest ih =>
      by_cases single : character.isDigit
      · rw [readDigits_cons_of_isDigit single, List.takeWhile_cons_of_pos single,
          Nat.ofDigitChars_cons, Nat.ofDigitChars_cons]
        simp only [List.all_cons, single, Bool.true_and]
        split
        · next fits => exact ih fits
        · next large =>
            rw [if_pos (Nat.le_trans (Nat.not_lt.mp large) (le_ofDigitChars _ _))]
      · rw [readDigits, if_neg single, List.takeWhile_cons_of_neg single, Nat.ofDigitChars_nil,
          if_neg (Nat.not_le.mpr small)]
        simp [single]

/-- What follows the plus sign, if there is one in front. -/
def unsigned : List Char → List Char
  | '+' :: rest => rest
  | characters => characters

theorem unsigned_of_unmarked {characters : List Char}
    (unmarked : ∀ rest, characters ≠ '+' :: rest) : unsigned characters = characters := by
  cases characters with
  | nil => rfl
  | cons first rest =>
      unfold unsigned
      split
      · exact absurd ‹_› (unmarked _)
      · rfl

/-- The text is a numeral of the value. -/
structure Spells (text : String) (value : Nat) : Prop where
  nonempty : unsigned text.toList ≠ []
  digits : ∀ character ∈ unsigned text.toList, character.isDigit
  value_eq : Nat.ofDigitChars 10 (unsigned text.toList) 0 = value
  value_lt : value < bound

/-- Some digits in front, after the plus sign if there is one, are worth the bound or more. -/
def Outgrows (text : String) : Prop :=
  ∃ digits, digits <+: unsigned text.toList ∧ (∀ digit ∈ digits, digit.isDigit) ∧
    bound ≤ Nat.ofDigitChars 10 digits 0

/-- Why the text is no numeral. -/
structure HasDefect (text : String) (defect : Defect) : Prop where
  no_value : ∀ value, ¬ Spells text value
  empty_iff : defect = .empty ↔ text = ""
  tooLarge_iff : defect = .tooLarge ↔ Outgrows text
  invalidDigit_iff : defect = .invalidDigit ↔ text ≠ "" ∧ ¬ Outgrows text

theorem outgrows_iff (text : String) :
    Outgrows text ↔
      bound ≤ Nat.ofDigitChars 10 ((unsigned text.toList).takeWhile Char.isDigit) 0 := by
  constructor
  · rintro ⟨digits, ⟨rest, split⟩, all, reached⟩
    rw [← split, List.takeWhile_append_of_pos all, Nat.ofDigitChars_append]
    exact Nat.le_trans reached (le_ofDigitChars _ _)
  · intro reached
    exact ⟨_, List.takeWhile_prefix _, List.all_eq_true.mp List.all_takeWhile, reached⟩

theorem Outgrows.ne_empty {text : String} (outgrows : Outgrows text) : text ≠ "" := by
  rintro rfl
  exact absurd ((outgrows_iff "").mp outgrows) (by decide)

theorem Spells.not_outgrows {text : String} {value : Nat} (spells : Spells text value) :
    ¬ Outgrows text := by
  have whole : (unsigned text.toList).takeWhile Char.isDigit = unsigned text.toList :=
    List.takeWhile_eq_self_iff.mpr spells.digits
  rw [outgrows_iff, whole, spells.value_eq]
  exact Nat.not_le.mpr spells.value_lt

theorem hasDefect_empty : HasDefect "" .empty where
  no_value _ spells := spells.nonempty rfl
  empty_iff := iff_of_true rfl rfl
  tooLarge_iff := iff_of_false nofun fun outgrows => outgrows.ne_empty rfl
  invalidDigit_iff := iff_of_false nofun fun other => other.1 rfl

theorem hasDefect_tooLarge {text : String} (outgrows : Outgrows text) :
    HasDefect text .tooLarge where
  no_value _ spells := spells.not_outgrows outgrows
  empty_iff := iff_of_false nofun outgrows.ne_empty
  tooLarge_iff := iff_of_true rfl outgrows
  invalidDigit_iff := iff_of_false nofun fun other => other.2 outgrows

theorem hasDefect_invalidDigit {text : String} (nonempty : text ≠ "") (bounded : ¬ Outgrows text)
    (no_value : ∀ value, ¬ Spells text value) : HasDefect text .invalidDigit where
  no_value := no_value
  empty_iff := iff_of_false nofun nonempty
  tooLarge_iff := iff_of_false nofun bounded
  invalidDigit_iff := iff_of_true rfl ⟨nonempty, bounded⟩

theorem readCharacters_eq {characters : List Char} (nonempty : characters ≠ []) :
    readCharacters characters =
      if unsigned characters = [] then .error .invalidDigit
      else readDigits 0 (unsigned characters) := by
  unfold readCharacters
  split
  · exact absurd rfl nonempty
  · rfl
  · next digits more =>
      have some_digits : digits ≠ [] := fun none => more (by rw [none])
      rw [unsigned, if_neg some_digits]
  · next unmarked =>
      rw [unsigned_of_unmarked unmarked, if_neg nonempty]

/-- A text is read as its value, or refused for what is wrong with it. -/
theorem read_cases (text : String) :
    (∃ value, read text = .ok value ∧ Spells text value) ∨
      ∃ defect, read text = .error defect ∧ HasDefect text defect := by
  by_cases empty : text = ""
  · subst empty
    exact .inr ⟨.empty, rfl, hasDefect_empty⟩
  have nonempty : text.toList ≠ [] := fun none => empty (String.toList_eq_nil_iff.mp none)
  rw [read, readCharacters_eq nonempty]
  split
  · next lone =>
      refine .inr ⟨_, rfl, hasDefect_invalidDigit empty ?_ fun _ spells => spells.nonempty lone⟩
      rw [outgrows_iff, lone]
      decide
  · next some_digits =>
      rw [readDigits_eq (by decide)]
      split
      · next reached => exact .inr ⟨_, rfl, hasDefect_tooLarge ((outgrows_iff text).mpr reached)⟩
      · next below =>
          split
          · next all =>
              have digits := List.all_eq_true.mp all
              rw [List.takeWhile_eq_self_iff.mpr digits] at below
              exact .inl ⟨_, rfl, some_digits, digits, rfl, Nat.not_le.mp below⟩
          · next other =>
              rw [← outgrows_iff] at below
              exact .inr ⟨_, rfl, hasDefect_invalidDigit empty below fun _ spells =>
                other (List.all_eq_true.mpr spells.digits)⟩

theorem HasDefect.unique {text : String} {defect other : Defect} (first : HasDefect text defect)
    (second : HasDefect text other) : defect = other := by
  cases defect with
  | empty => exact (second.empty_iff.mpr (first.empty_iff.mp rfl)).symm
  | tooLarge => exact (second.tooLarge_iff.mpr (first.tooLarge_iff.mp rfl)).symm
  | invalidDigit => exact (second.invalidDigit_iff.mpr (first.invalidDigit_iff.mp rfl)).symm

theorem read_eq_ok_iff {text : String} {value : Nat} :
    read text = .ok value ↔ Spells text value := by
  rcases read_cases text with ⟨result, read_eq, spells⟩ | ⟨defect, read_eq, spoiled⟩
  · rw [read_eq]
    constructor
    · rintro ⟨⟩
      exact spells
    · intro other
      rw [← spells.value_eq, other.value_eq]
  · rw [read_eq]
    exact iff_of_false nofun (spoiled.no_value value)

theorem read_eq_error_iff {text : String} {defect : Defect} :
    read text = .error defect ↔ HasDefect text defect := by
  rcases read_cases text with ⟨value, read_eq, spells⟩ | ⟨found, read_eq, spoiled⟩
  · rw [read_eq]
    exact iff_of_false nofun fun other => other.no_value value spells
  · rw [read_eq]
    constructor
    · rintro ⟨⟩
      exact spoiled
    · intro other
      rw [spoiled.unique other]

/-- What is too large is told before a wrong character that comes after it. -/
example : read "+018446744073709551616?" = .error .tooLarge := by decide

end Chip8.Numeral
