import Mathlib.Algebra.Group.Nat.Defs
import Mathlib.Data.List.Induction
import Chip8.Text.Hex

/-!
# Reading hexadecimal text

Capital digits read back as the number that they were written for, whatever zeros stand before
them, so no two numbers have one text. A number below a power of sixteen is written with no more
digits than its width asks for, and no other digits would do.
-/

namespace Chip8.Hex

def digitValue (digit : Char) : Nat :=
  if digit.isDigit then digit.toNat - '0'.toNat else digit.toNat - 'A'.toNat + 10

def value (digits : List Char) : Nat :=
  digits.foldl (fun total digit => 16 * total + digitValue digit) 0

theorem digitValue_toUpper_digitChar {digit : Nat} (single : digit < 16) :
    digitValue (Nat.digitChar digit).toUpper = digit := by
  decide +revert

@[simp]
theorem value_singleton (digit : Char) : value [digit] = digitValue digit := by
  simp [value]

@[simp]
theorem value_concat (digits : List Char) (digit : Char) :
    value (digits ++ [digit]) = 16 * value digits + digitValue digit := by
  simp [value]

@[simp]
theorem value_toDigits (number : Nat) :
    value ((Nat.toDigits 16 number).map Char.toUpper) = number := by
  induction number using Nat.strongRecOn with
  | ind number ih =>
      rw [Nat.toDigits_eq_if (by decide)]
      split
      · next single =>
          simp [digitValue_toUpper_digitChar single]
      · next many =>
          have before := ih (number / 16) (by omega)
          have last := digitValue_toUpper_digitChar (Nat.mod_lt number (by decide : 0 < 16))
          rw [List.map_append, List.map_singleton, value_concat, before, last]
          exact Nat.div_add_mod number 16

@[simp]
theorem value_zeros (count : Nat) (digits : List Char) :
    value (List.replicate count '0' ++ digits) = value digits := by
  induction count with
  | zero => rfl
  | succ count ih => exact ih

@[simp]
theorem value_capitals (width number : Nat) : value (capitals width number).toList = number := by
  simp [capitals, List.leftpad]

theorem capitals_injective (width : Nat) : Function.Injective (capitals width) := by
  intro first second same
  rw [← value_capitals width first, same, value_capitals]

theorem length_capitals_eq_max (width number : Nat) :
    (capitals width number).toList.length = max width (Nat.toDigits 16 number).length := by
  rw [capitals, String.toList_ofList, List.length_leftpad, List.length_map]

theorem length_capitals {width number : Nat} (positive : 0 < width) (small : number < 16 ^ width) :
    (capitals width number).toList.length = width := by
  have digits := (Nat.length_toDigits_le_iff (by decide) positive).mpr small
  rw [length_capitals_eq_max, Nat.max_eq_left digits]

theorem digitChar_of_mem_toDigits {number : Nat} {char : Char}
    (listed : char ∈ Nat.toDigits 16 number) : ∃ digit < 16, char = Nat.digitChar digit := by
  induction number using Nat.strongRecOn with
  | ind number ih =>
      rw [Nat.toDigits_eq_if (by decide)] at listed
      split at listed
      · next single => exact ⟨number, single, List.mem_singleton.mp listed⟩
      · next many =>
          rcases List.mem_append.mp listed with before | last
          · exact ih (number / 16) (by omega) before
          · exact ⟨number % 16, Nat.mod_lt number (by decide), List.mem_singleton.mp last⟩

theorem digitChar_of_mem_capitals {width number : Nat} {char : Char}
    (listed : char ∈ (capitals width number).toList) :
    ∃ digit < 16, char = (Nat.digitChar digit).toUpper := by
  rw [capitals, String.toList_ofList, List.leftpad] at listed
  rcases List.mem_append.mp listed with padding | digits
  · exact ⟨0, by decide, List.eq_of_mem_replicate padding⟩
  · obtain ⟨small, among, rfl⟩ := List.mem_map.mp digits
    obtain ⟨digit, single, rfl⟩ := digitChar_of_mem_toDigits among
    exact ⟨digit, single, rfl⟩

theorem notMem_capitals (width number : Nat) {char : Char}
    (other : ∀ digit < 16, (Nat.digitChar digit).toUpper ≠ char) :
    char ∉ (capitals width number).toList := by
  intro listed
  obtain ⟨digit, single, rfl⟩ := digitChar_of_mem_capitals listed
  exact other digit single rfl

/-- Four capital digits that make up the number. -/
structure FourDigits (digits : List Char) (number : Nat) : Prop where
  length_eq : digits.length = 4
  capital : ∀ digit ∈ digits, digit ∈ "0123456789ABCDEF".toList
  value_eq : value digits = number

theorem FourDigits.notMem {digits : List Char} {number : Nat} (written : FourDigits digits number)
    {char : Char} (other : char ∉ "0123456789ABCDEF".toList) : char ∉ digits :=
  fun listed => other (written.capital char listed)

theorem toUpper_digitChar_mem {digit : Nat} (single : digit < 16) :
    (Nat.digitChar digit).toUpper ∈ "0123456789ABCDEF".toList := by
  decide +revert

theorem capital_of_mem_capitals {width number : Nat} {digit : Char}
    (listed : digit ∈ (capitals width number).toList) : digit ∈ "0123456789ABCDEF".toList := by
  obtain ⟨single, below, rfl⟩ := digitChar_of_mem_capitals listed
  exact toUpper_digitChar_mem below

theorem fourDigits_capitals {number : Nat} (small : number < 0x10000) :
    FourDigits (capitals 4 number).toList number where
  length_eq := length_capitals (by decide) small
  capital _ listed := capital_of_mem_capitals listed
  value_eq := value_capitals 4 number

/-- Capital digits that make up the number, four of them unless it needs more. -/
structure FourDigitsOrMore (digits : List Char) (number : Nat) : Prop where
  four_le_length : 4 ≤ digits.length
  length_le : ∀ width, 4 ≤ width → number < 16 ^ width → digits.length ≤ width
  capital : ∀ digit ∈ digits, digit ∈ "0123456789ABCDEF".toList
  value_eq : value digits = number

theorem fourDigitsOrMore_capitals (number : Nat) :
    FourDigitsOrMore (capitals 4 number).toList number where
  four_le_length := by
    rw [length_capitals_eq_max]
    exact Nat.le_max_left _ _
  length_le width four small := by
    have positive : 0 < width := Nat.lt_of_lt_of_le (by decide) four
    have digits := (Nat.length_toDigits_le_iff (by decide) positive).mpr small
    rw [length_capitals_eq_max]
    exact Nat.max_le.mpr ⟨four, digits⟩
  capital _ listed := capital_of_mem_capitals listed
  value_eq := value_capitals 4 number

theorem exists_of_capital {digit : Char} (capital : digit ∈ "0123456789ABCDEF".toList) :
    ∃ number < 16, digit = (Nat.digitChar number).toUpper := by
  have capitals : "0123456789ABCDEF".toList =
      (List.range 16).map fun number => (Nat.digitChar number).toUpper := by
    decide
  rw [capitals] at capital
  obtain ⟨number, below, rfl⟩ := List.mem_map.mp capital
  exact ⟨number, List.mem_range.mp below, rfl⟩

theorem digitValue_lt {digit : Char} (capital : digit ∈ "0123456789ABCDEF".toList) :
    digitValue digit < 16 := by
  obtain ⟨number, below, rfl⟩ := exists_of_capital capital
  rw [digitValue_toUpper_digitChar below]
  exact below

theorem digitValue_inj {first second : Char} (capital : first ∈ "0123456789ABCDEF".toList)
    (other : second ∈ "0123456789ABCDEF".toList) (same : digitValue first = digitValue second) :
    first = second := by
  obtain ⟨number, below, rfl⟩ := exists_of_capital capital
  obtain ⟨another, alsoBelow, rfl⟩ := exists_of_capital other
  rw [digitValue_toUpper_digitChar below, digitValue_toUpper_digitChar alsoBelow] at same
  rw [same]

theorem value_lt {digits : List Char}
    (capital : ∀ digit ∈ digits, digit ∈ "0123456789ABCDEF".toList) :
    value digits < 16 ^ digits.length := by
  induction digits using List.reverseRecOn with
  | nil => decide
  | append_singleton digits digit ih =>
      have before := ih fun digit listed => capital digit (List.mem_append_left _ listed)
      have last := digitValue_lt (capital digit (List.mem_append_right _ List.mem_cons_self))
      rw [value_concat, List.length_append, List.length_singleton, Nat.pow_succ]
      omega

theorem value_inj {first second : List Char} (sameLength : first.length = second.length)
    (capital : ∀ digit ∈ first, digit ∈ "0123456789ABCDEF".toList)
    (other : ∀ digit ∈ second, digit ∈ "0123456789ABCDEF".toList)
    (same : value first = value second) : first = second := by
  induction first using List.reverseRecOn generalizing second with
  | nil => exact (List.eq_nil_of_length_eq_zero sameLength.symm).symm
  | append_singleton first digit ih =>
      cases second using List.reverseRecOn with
      | nil => simp at sameLength
      | append_singleton second last =>
          have written := capital digit (List.mem_append_right _ List.mem_cons_self)
          have written' := other last (List.mem_append_right _ List.mem_cons_self)
          have below := digitValue_lt written
          have below' := digitValue_lt written'
          rw [value_concat, value_concat] at same
          rw [digitValue_inj written written' (by omega), ih (by simpa using sameLength)
            (fun digit listed => capital digit (List.mem_append_left _ listed))
            (fun digit listed => other digit (List.mem_append_left _ listed)) (by omega)]

/-- No other digits make up the number. -/
theorem FourDigitsOrMore.unique {first second : List Char} {number : Nat}
    (written : FourDigitsOrMore first number) (written' : FourDigitsOrMore second number) :
    first = second := by
  have below := value_lt written.capital
  have below' := value_lt written'.capital
  rw [written.value_eq] at below
  rw [written'.value_eq] at below'
  have sameLength := Nat.le_antisymm (written.length_le _ written'.four_le_length below')
    (written'.length_le _ written.four_le_length below)
  exact value_inj sameLength written.capital written'.capital
    (written.value_eq.trans written'.value_eq.symm)

theorem small_injective : Function.Injective small := by
  intro first second same
  have digits : Nat.digitChar first = Nat.digitChar second := by
    have listed := congrArg String.toList same
    simpa [small] using listed
  decide +revert

end Chip8.Hex
