import Mathlib.Control.Monad.Basic
import Chip8.Proofs.Machine.Faults

/-!
# Words that stand for instructions

Encoding and decoding undo each other, but for the last digit that families 5 and 9 ignore: every
well-formed instruction is decoded from its encoding, and every word that is decoded is the encoding
of the instruction that it denotes, with a zero for an ignored digit. So the words that are refused
are those of the other families that encode nothing.
-/

namespace Chip8

namespace Word

theorem fields_ofFamilyAddress {digit : Nat} (small : digit < 0x10) (address : Address) :
    (ofFamilyAddress digit address).family.val = digit ∧
      (ofFamilyAddress digit address).address = address := by
  have := address.isLt
  have number : (ofFamilyAddress digit address).toNat = digit * 0x1000 + address.val := by
    simp only [ofFamilyAddress, UInt16.toNat_ofNat']
    omega
  refine ⟨?_, Fin.ext ?_⟩
  all_goals
    simp only [family, Word.address, number]
    omega

theorem fields_ofFamilyByte {digit : Nat} (small : digit < 0x10) (x : Register) (byte : UInt8) :
    (ofFamilyByte digit x byte).family.val = digit ∧ (ofFamilyByte digit x byte).x = x ∧
      (ofFamilyByte digit x byte).lowByte = byte := by
  have := x.isLt
  have := byte.toNat_lt
  have number : (ofFamilyByte digit x byte).toNat =
      digit * 0x1000 + x.val * 0x100 + byte.toNat := by
    simp only [ofFamilyByte, UInt16.toNat_ofNat']
    omega
  refine ⟨?_, Fin.ext ?_, UInt8.toNat_inj.mp ?_⟩
  all_goals
    simp only [family, Word.x, lowByte, UInt16.toNat_toUInt8, number]
    omega

theorem fields_ofDigits {digit last : Nat} (small : digit < 0x10) (single : last < 0x10)
    (x y : Register) :
    (ofDigits digit x y last).family.val = digit ∧ (ofDigits digit x y last).x = x ∧
      (ofDigits digit x y last).y = y ∧ (ofDigits digit x y last).lastDigit.val = last := by
  have := x.isLt
  have := y.isLt
  have number : (ofDigits digit x y last).toNat =
      digit * 0x1000 + x.val * 0x100 + y.val * 0x10 + last := by
    simp only [ofDigits, UInt16.toNat_ofNat']
    omega
  refine ⟨?_, Fin.ext ?_, Fin.ext ?_, ?_⟩
  all_goals
    simp only [family, Word.x, Word.y, lastDigit, number]
    omega

theorem ofFamilyAddress_family_address (word : Word) :
    ofFamilyAddress word.family word.address = word := by
  have := word.toNat_lt
  apply UInt16.toNat_inj.mp
  simp only [ofFamilyAddress, family, address, UInt16.toNat_ofNat']
  omega

theorem ofFamilyByte_family_x_lowByte (word : Word) :
    ofFamilyByte word.family word.x word.lowByte = word := by
  have := word.toNat_lt
  apply UInt16.toNat_inj.mp
  simp only [ofFamilyByte, family, x, lowByte, UInt16.toNat_toUInt8, UInt16.toNat_ofNat']
  omega

theorem ofDigits_family_x_y_lastDigit (word : Word) :
    ofDigits word.family word.x word.y word.lastDigit = word := by
  have := word.toNat_lt
  apply UInt16.toNat_inj.mp
  simp only [ofDigits, family, x, y, lastDigit, UInt16.toNat_ofNat']
  omega

/-- The word with a zero for its last digit. -/
def clearLastDigit (word : Word) : Word :=
  UInt16.ofNat (word.toNat / 0x10 * 0x10)

theorem ofDigits_family_x_y_zero (word : Word) :
    ofDigits word.family word.x word.y 0 = word.clearLastDigit := by
  have := word.toNat_lt
  apply UInt16.toNat_inj.mp
  simp only [ofDigits, clearLastDigit, family, x, y, UInt16.toNat_ofNat']
  omega

end Word

theorem Combination.digit_lt (combination : Combination) : combination.digit < 0x10 := by
  cases combination <;> decide

namespace Instruction

theorem denotes_encode {instruction : Instruction} (formed : instruction.WellFormed) :
    instruction.encode.Denotes instruction := by
  cases instruction with
  | machineRoutine address =>
      obtain ⟨family, same⟩ := Word.fields_ofFamilyAddress (by decide : 0x0 < 0x10) address
      have written : (Word.ofFamilyAddress 0x0 address).Denotes (.machineRoutine address) := by
        refine ⟨family, ?_, ?_, same⟩
        · rw [same]
          exact formed.1
        · rw [same]
          exact formed.2
      exact written
  | blank | leave => exact ⟨rfl, rfl⟩
  | jump | call | setIndex | jumpFrom => exact Word.fields_ofFamilyAddress (by decide) _
  | skipIfByte | skipUnlessByte | setByte | addByte | random =>
      exact Word.fields_ofFamilyByte (by decide) _ _
  | skipIfSame x y | skipUnlessSame x y =>
      exact (Word.fields_ofDigits (by decide) (by decide) x y).imp_right
        fun ⟨sameX, sameY, _⟩ => ⟨sameX, sameY⟩
  | combine combination x y =>
      obtain ⟨family, sameX, sameY, last⟩ :=
        Word.fields_ofDigits (by decide : 0x8 < 0x10) combination.digit_lt x y
      exact ⟨family, last, sameX, sameY⟩
  | draw x y rows =>
      obtain ⟨family, sameX, sameY, last⟩ :=
        Word.fields_ofDigits (by decide : 0xD < 0x10) rows.isLt x y
      exact ⟨family, sameX, sameY, Fin.ext last⟩
  | skipIfHeld x | skipUnlessHeld x | readDelay x | awaitKey x | setDelay x | setSound x
  | addIndex x | storeDecimal x | storeRegisters x | loadRegisters x =>
      exact (Word.fields_ofFamilyByte (by decide) x _).imp_right And.symm

theorem encode_of_denotes {word : Word} {instruction : Instruction}
    (denotes : word.Denotes instruction) :
    instruction.encode = if word.family.val ∈ [0x5, 0x9] then word.clearLastDigit else word := by
  cases instruction with
  | blank | leave =>
      obtain ⟨family, address⟩ := denotes
      rw [if_neg (by rw [family]; decide)]
      exact ((Word.eq_ofNat_iff word (by decide)).mpr ⟨family, address⟩).symm
  | machineRoutine address =>
      obtain ⟨family, _, _, rfl⟩ := denotes
      rw [if_neg (by rw [family]; decide), encode, ← family]
      exact word.ofFamilyAddress_family_address
  | jump | call | setIndex | jumpFrom =>
      obtain ⟨family, rfl⟩ := denotes
      rw [if_neg (by rw [family]; decide), encode, ← family]
      exact word.ofFamilyAddress_family_address
  | skipIfByte | skipUnlessByte | setByte | addByte | random =>
      obtain ⟨family, rfl, rfl⟩ := denotes
      rw [if_neg (by rw [family]; decide), encode, ← family]
      exact word.ofFamilyByte_family_x_lowByte
  | skipIfSame | skipUnlessSame =>
      obtain ⟨family, rfl, rfl⟩ := denotes
      rw [if_pos (by rw [family]; decide), encode, ← family]
      exact word.ofDigits_family_x_y_zero
  | combine combination x y =>
      obtain ⟨family, last, rfl, rfl⟩ := denotes
      rw [if_neg (by rw [family]; decide), encode, ← family, ← last]
      exact word.ofDigits_family_x_y_lastDigit
  | draw x y rows =>
      obtain ⟨family, rfl, rfl, rfl⟩ := denotes
      rw [if_neg (by rw [family]; decide), encode, ← family]
      exact word.ofDigits_family_x_y_lastDigit
  | skipIfHeld | skipUnlessHeld | readDelay | awaitKey | setDelay | setSound | addIndex
  | storeDecimal | storeRegisters | loadRegisters =>
      obtain ⟨family, selector, rfl⟩ := denotes
      rw [if_neg (by rw [family]; decide), encode, ← family, ← selector]
      exact word.ofFamilyByte_family_x_lowByte

theorem wellFormed_of_denotes {word : Word} {instruction : Instruction}
    (denotes : word.Denotes instruction) : instruction.WellFormed := by
  cases instruction with
  | machineRoutine address =>
      obtain ⟨_, other, special, rfl⟩ := denotes
      exact ⟨other, special⟩
  | _ => trivial

theorem decode?_encode {instruction : Instruction} (formed : instruction.WellFormed) :
    decode? instruction.encode = some instruction :=
  (decode?_eq_some_iff _ _).mpr (denotes_encode formed)

theorem decode?_eq_none_iff_encode (word : Word) :
    decode? word = none ↔
      (∀ instruction : Instruction, instruction.WellFormed → instruction.encode ≠ word) ∧
        word.family.val ∉ [0x5, 0x9] := by
  constructor
  · intro refused
    constructor
    · rintro instruction formed rfl
      cases refused.symm.trans (decode?_encode formed)
    · have unsupported := (decode?_eq_none_iff word).mp refused
      rcases unsupported with ⟨family, _⟩ | ⟨family, _⟩ | ⟨family, _⟩
      all_goals
        rw [family]
        decide
  · rintro ⟨unwritten, family⟩
    refine Option.eq_none_iff_forall_ne_some.mpr fun instruction decoded => ?_
    have denotes := (decode?_eq_some_iff word instruction).mp decoded
    have written := encode_of_denotes denotes
    rw [if_neg family] at written
    exact unwritten instruction (wellFormed_of_denotes denotes) written

/-- Registers, digits and addresses are in bounds by their types. Every well-formed instruction is
decoded from its encoding; every word that is decoded gives a well-formed instruction, whose
encoding is the word up to an ignored last digit; and the other words, which encode nothing and
ignore nothing, are refused as unsupported, each by its own name. -/
theorem decoding_inverts_encoding :
    (∀ instruction : Instruction, instruction.WellFormed →
      decode? instruction.encode = some instruction) ∧
    (∀ word instruction, decode? word = some instruction → instruction.WellFormed ∧
      instruction.encode =
        if word.family.val ∈ [0x5, 0x9] then word.clearLastDigit else word) ∧
    (∀ word, decode? word = none ↔
      (∀ instruction : Instruction, instruction.WellFormed → instruction.encode ≠ word) ∧
        word.family.val ∉ [0x5, 0x9]) ∧
    ∀ (σ : Type) (machine : Machine σ) (word : Word),
      machine.memory.wordAt machine.counter = .ok word →
      ∀ fault, machine.upcoming = .error fault ↔
        decode? word = none ∧ .unsupportedOpcode word = fault := by
  refine ⟨fun _ formed => decode?_encode formed, fun word instruction decoded => ?_,
    decode?_eq_none_iff_encode, fun σ machine word fetched fault => ?_⟩
  · have denotes := (decode?_eq_some_iff word instruction).mp decoded
    exact ⟨wellFormed_of_denotes denotes, encode_of_denotes denotes⟩
  · rw [Machine.upcoming_eq_error_iff fetched, decode?_eq_none_iff]

/-- A sprite of five rows, a skip whose last digit is ignored, and a word that a machine refuses. -/
theorem decoding_inverts_encoding_each_way :
    let sprite : Instruction := .draw ⟨1, by decide⟩ ⟨2, by decide⟩ ⟨5, by decide⟩
    let skip : Instruction := .skipUnlessSame ⟨1, by decide⟩ ⟨2, by decide⟩
    let blank : Machine Slots := Machine.powerOn {} (Vector.replicate 8 0)
    let machine := (blank.load [0x8AB9]).machine
    (sprite.encode = 0xD125 ∧ decode? 0xD125 = some sprite) ∧
      (decode? 0x912F = some skip ∧ skip.encode = 0x9120) ∧
      (∀ instruction : Instruction, instruction.WellFormed → instruction.encode ≠ 0x8AB9) ∧
      machine.upcoming = .error (.unsupportedOpcode 0x8AB9) := by
  intro sprite skip blank machine
  obtain ⟨inverts, encodes, refuses, faults⟩ := decoding_inverts_encoding
  have written : sprite.encode = 0xD125 := by decide
  have skips : decode? 0x912F = some skip := by decide
  have unknown : decode? 0x8AB9 = none := by decide
  have fetched : machine.memory.wordAt machine.counter = .ok 0x8AB9 := by decide +kernel
  have decoded : decode? sprite.encode = some sprite := inverts sprite trivial
  rw [written] at decoded
  exact ⟨⟨written, decoded⟩, ⟨skips, (encodes _ skip skips).2⟩, ((refuses _).mp unknown).1,
    (faults Slots machine _ fetched _).mpr ⟨unknown, rfl⟩⟩

end Instruction

end Chip8
