import Chip8.Instruction.Format

/-!
# Register arithmetic over the integers

A word of family 8 says with its last digit how two registers are combined. Four of the digits give
a result alone. Each of the other five gives a flag as well, which is zero or one, and its operands,
result and flag satisfy an equation over the integers: the flag is the carry of a sum, tells that a
difference took no borrow, or is the bit that halving or doubling drops.
-/

namespace Chip8

/-- The result of the digits that give no flag. -/
def plainResult? (digit : Nat) (left right : UInt8) : Option UInt8 :=
  match digit with
  | 0x0 => some right
  | 0x1 => some (left ||| right)
  | 0x2 => some (left &&& right)
  | 0x3 => some (left ^^^ right)
  | _ => none

/-- The equation of the digits that give a flag. -/
def Balance (digit : Nat) (left right value flag : Int) : Prop :=
  match digit with
  | 0x4 => 256 * flag + value = left + right
  | 0x5 => left - right = value - 256 * (1 - flag)
  | 0x6 => 2 * value + flag = left
  | 0x7 => right - left = value - 256 * (1 - flag)
  | 0xE => 256 * flag + value = 2 * left
  | _ => False

structure Balanced (digit : Nat) (left right value flag : UInt8) : Prop where
  flag_le : flag.toNat ≤ 1
  balance : Balance digit left.toNat right.toNat value.toNat flag.toNat

/-- The difference modulo 256, and a flag where it does not go below zero. -/
structure Difference (left right value flag : UInt8) : Prop where
  value_eq : (value.toNat : Int) = (left.toNat - right.toNat) % 256
  flag_eq_one_iff : flag = 1 ↔ right ≤ left

section

variable {left right value flag : UInt8}

theorem Balanced.difference (balanced : Balanced 0x5 left right value flag) :
    Difference left right value flag := by
  obtain ⟨flag_le, balance⟩ := balanced
  have := value.toNat_lt
  simp only [Balance] at balance
  constructor
  · omega
  · rw [UInt8.le_iff_toNat_le, ← UInt8.toNat_inj, UInt8.toNat_one]
    omega

theorem Balanced.difference_swapped (balanced : Balanced 0x7 left right value flag) :
    Difference right left value flag :=
  Balanced.difference ⟨balanced.flag_le, balanced.balance⟩

end

section

variable (left right : UInt8)

theorem balanced_add :
    Balanced 0x4 left right (left + right)
      (if left.toNat + right.toNat < 256 then 0 else 1) := by
  have := left.toNat_lt
  have := right.toNat_lt
  split
  · next small =>
    refine ⟨by decide, ?_⟩
    simp only [Balance, UInt8.toNat_add, UInt8.toNat_zero]
    omega
  · next large =>
    refine ⟨by decide, ?_⟩
    simp only [Balance, UInt8.toNat_add, UInt8.toNat_one]
    omega

theorem balanced_subtract :
    Balanced 0x5 left right (left - right) (if right ≤ left then 1 else 0) := by
  have := left.toNat_lt
  have := right.toNat_lt
  split
  · next enough =>
    rw [UInt8.le_iff_toNat_le] at enough
    refine ⟨by decide, ?_⟩
    simp only [Balance, UInt8.toNat_sub, UInt8.toNat_one]
    omega
  · next borrows =>
    rw [UInt8.le_iff_toNat_le] at borrows
    refine ⟨by decide, ?_⟩
    simp only [Balance, UInt8.toNat_sub, UInt8.toNat_zero]
    omega

theorem balanced_subtractFrom :
    Balanced 0x7 left right (right - left) (if left ≤ right then 1 else 0) := by
  obtain ⟨flag_le, balance⟩ := balanced_subtract right left
  exact ⟨flag_le, balance⟩

theorem balanced_shiftRight : Balanced 0x6 left right (left / 2) (left % 2) := by
  have half : (left / 2).toNat = left.toNat / 2 := UInt8.toNat_div _ _
  have dropped : (left % 2).toNat = left.toNat % 2 := UInt8.toNat_mod _ _
  constructor
  · omega
  · simp only [Balance]
    omega

theorem balanced_shiftLeft : Balanced 0xE left right (left + left) (left / 128) := by
  have double : (left + left).toNat = (left.toNat + left.toNat) % 256 := UInt8.toNat_add _ _
  have dropped : (left / 128).toNat = left.toNat / 128 := UInt8.toNat_div _ _
  have := left.toNat_lt
  constructor
  · omega
  · simp only [Balance]
    omega

end

namespace Combination

theorem exists_of_plainResult? {digit : Nat} {left right value : UInt8}
    (plain : plainResult? digit left right = some value) :
    ∃ combination : Combination, digit = combination.digit ∧
      combination.apply left right = { value := value } := by
  unfold plainResult? at plain
  split at plain
  · cases plain
    exact ⟨.copy, rfl, rfl⟩
  · cases plain
    exact ⟨.or, rfl, rfl⟩
  · cases plain
    exact ⟨.and, rfl, rfl⟩
  · cases plain
    exact ⟨.xor, rfl, rfl⟩
  · cases plain

theorem exists_of_flagDigit {digit : Nat} (listed : digit ∈ [0x4, 0x5, 0x6, 0x7, 0xE])
    (left right : UInt8) :
    ∃ (combination : Combination) (value flag : UInt8), digit = combination.digit ∧
      combination.apply left right = ⟨value, some flag⟩ ∧
      Balanced digit left right value flag := by
  simp only [List.mem_cons, List.not_mem_nil, or_false] at listed
  rcases listed with rfl | rfl | rfl | rfl | rfl
  · exact ⟨.add, _, _, rfl, rfl, balanced_add left right⟩
  · exact ⟨.subtract, _, _, rfl, rfl, balanced_subtract left right⟩
  · exact ⟨.shiftRight, _, _, rfl, rfl, balanced_shiftRight left right⟩
  · exact ⟨.subtractFrom, _, _, rfl, rfl, balanced_subtractFrom left right⟩
  · exact ⟨.shiftLeft, _, _, rfl, rfl, balanced_shiftLeft left right⟩

/-- What a shift gives is decided by its left operand. -/
theorem exists_of_shiftDigit {digit : Nat} (listed : digit ∈ [0x6, 0xE]) (left : UInt8) :
    ∃ (combination : Combination) (value flag : UInt8), digit = combination.digit ∧
      ∀ right, combination.apply left right = ⟨value, some flag⟩ := by
  simp only [List.mem_cons, List.not_mem_nil, or_false] at listed
  rcases listed with rfl | rfl
  · exact ⟨.shiftRight, _, _, rfl, fun _ => rfl⟩
  · exact ⟨.shiftLeft, _, _, rfl, fun _ => rfl⟩

end Combination

end Chip8
