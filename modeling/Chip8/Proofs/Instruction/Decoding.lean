import Chip8.Instruction.Format

/-!
# What words denote

`Denotes` gives each instruction by the fields of the words that stand for it. Decoding finds the
one instruction that a word denotes, and fails exactly on the words of families 8, E and F whose
selectors select nothing.
-/

namespace Chip8

/-- How many bytes from the index on an instruction reads or writes. -/
def Instruction.span? : Instruction → Option Nat
  | .draw _ _ rows => some rows
  | .storeDecimal _ => some 3
  | .storeRegisters x => some (x + 1)
  | .loadRegisters x => some (x + 1)
  | _ => none

namespace Word

def Denotes (word : Word) : Instruction → Prop
  | .machineRoutine address =>
      word.family.val = 0x0 ∧ word.address.val ≠ 0x0E0 ∧ word.address.val ≠ 0x0EE ∧
        word.address = address
  | .blank => word.family.val = 0x0 ∧ word.address.val = 0x0E0
  | .leave => word.family.val = 0x0 ∧ word.address.val = 0x0EE
  | .jump address => word.family.val = 0x1 ∧ word.address = address
  | .call address => word.family.val = 0x2 ∧ word.address = address
  | .skipIfByte x byte => word.family.val = 0x3 ∧ word.x = x ∧ word.lowByte = byte
  | .skipUnlessByte x byte => word.family.val = 0x4 ∧ word.x = x ∧ word.lowByte = byte
  | .skipIfSame x y => word.family.val = 0x5 ∧ word.x = x ∧ word.y = y
  | .setByte x byte => word.family.val = 0x6 ∧ word.x = x ∧ word.lowByte = byte
  | .addByte x byte => word.family.val = 0x7 ∧ word.x = x ∧ word.lowByte = byte
  | .combine combination x y =>
      word.family.val = 0x8 ∧ word.lastDigit.val = combination.digit ∧ word.x = x ∧ word.y = y
  | .skipUnlessSame x y => word.family.val = 0x9 ∧ word.x = x ∧ word.y = y
  | .setIndex address => word.family.val = 0xA ∧ word.address = address
  | .jumpFrom address => word.family.val = 0xB ∧ word.address = address
  | .random x mask => word.family.val = 0xC ∧ word.x = x ∧ word.lowByte = mask
  | .draw x y rows =>
      word.family.val = 0xD ∧ word.x = x ∧ word.y = y ∧ word.lastDigit = rows
  | .skipIfHeld x => word.family.val = 0xE ∧ word.lowByte = 0x9E ∧ word.x = x
  | .skipUnlessHeld x => word.family.val = 0xE ∧ word.lowByte = 0xA1 ∧ word.x = x
  | .readDelay x => word.family.val = 0xF ∧ word.lowByte = 0x07 ∧ word.x = x
  | .awaitKey x => word.family.val = 0xF ∧ word.lowByte = 0x0A ∧ word.x = x
  | .setDelay x => word.family.val = 0xF ∧ word.lowByte = 0x15 ∧ word.x = x
  | .setSound x => word.family.val = 0xF ∧ word.lowByte = 0x18 ∧ word.x = x
  | .addIndex x => word.family.val = 0xF ∧ word.lowByte = 0x1E ∧ word.x = x
  | .storeDecimal x => word.family.val = 0xF ∧ word.lowByte = 0x33 ∧ word.x = x
  | .storeRegisters x => word.family.val = 0xF ∧ word.lowByte = 0x55 ∧ word.x = x
  | .loadRegisters x => word.family.val = 0xF ∧ word.lowByte = 0x65 ∧ word.x = x

/-- A word of family 8, E or F whose selector selects nothing. -/
def Unsupported (word : Word) : Prop :=
  (word.family.val = 0x8 ∧ word.lastDigit.val ∈ [0x8, 0x9, 0xA, 0xB, 0xC, 0xD, 0xF]) ∨
  (word.family.val = 0xE ∧ word.lowByte ∉ [0x9E, 0xA1]) ∨
  (word.family.val = 0xF ∧ word.lowByte ∉ [0x07, 0x0A, 0x15, 0x18, 0x1E, 0x33, 0x55, 0x65])

/-- How many bytes from the index on a word asks for. -/
def Spans (word : Word) (length : Nat) : Prop :=
  (word.family.val = 0xD ∧ length = word.lastDigit) ∨
  (word.family.val = 0xF ∧ word.lowByte = 0x33 ∧ length = 3) ∨
  (word.family.val = 0xF ∧ (word.lowByte = 0x55 ∨ word.lowByte = 0x65) ∧ length = word.x + 1)

theorem eq_ofNat_iff (word : Word) {number : Nat} (small : number < 0x1000) :
    word = UInt16.ofNat number ↔ word.family.val = 0 ∧ word.address.val = number := by
  have := word.toNat_lt
  rw [← UInt16.toNat_inj, UInt16.toNat_ofNat']
  simp only [family, address]
  omega

theorem Denotes.spans_iff {word : Word} {instruction : Instruction}
    (denotes : word.Denotes instruction) (length : Nat) :
    instruction.span? = some length ↔ word.Spans length := by
  cases instruction with
  | draw =>
      obtain ⟨family, _, _, rfl⟩ := denotes
      simp [Instruction.span?, Spans, family, eq_comm]
  | storeDecimal | storeRegisters | loadRegisters =>
      obtain ⟨family, selector, rfl⟩ := denotes
      simp [Instruction.span?, Spans, family, selector, eq_comm]
  | readDelay | awaitKey | setDelay | setSound | addIndex =>
      obtain ⟨family, selector, _⟩ := denotes
      simp [Instruction.span?, Spans, family, selector]
  | _ =>
      have family := denotes.1
      simp [Instruction.span?, Spans, family]

theorem Spans.exists_denotes {word : Word} {length : Nat} (spans : word.Spans length) :
    ∃ instruction, word.Denotes instruction ∧ instruction.span? = some length := by
  rcases spans with ⟨family, rfl⟩ | ⟨family, selector, rfl⟩ | ⟨family, store | load, rfl⟩
  · exact ⟨.draw word.x word.y word.lastDigit, ⟨family, rfl, rfl, rfl⟩, rfl⟩
  · exact ⟨.storeDecimal word.x, ⟨family, selector, rfl⟩, rfl⟩
  · exact ⟨.storeRegisters word.x, ⟨family, store, rfl⟩, rfl⟩
  · exact ⟨.loadRegisters word.x, ⟨family, load, rfl⟩, rfl⟩

theorem Spans.unique {word : Word} {length other : Nat} (spans : word.Spans length)
    (spansOther : word.Spans other) : length = other := by
  obtain ⟨instruction, denotes, span⟩ := spans.exists_denotes
  have same := (denotes.spans_iff other).mpr spansOther
  exact Option.some.inj (span.symm.trans same)

end Word

theorem Combination.ofDigit?_eq_some_iff (digit : Fin 16) (combination : Combination) :
    ofDigit? digit = some combination ↔ digit.val = combination.digit := by
  cases combination <;> decide +revert

theorem Combination.ofDigit?_eq_none_iff (digit : Fin 16) :
    ofDigit? digit = none ↔ digit.val ∈ [0x8, 0x9, 0xA, 0xB, 0xC, 0xD, 0xF] := by
  decide +revert

namespace Instruction

theorem ofKeypadSelector?_eq_none_iff (x : Register) (selector : UInt8) :
    ofKeypadSelector? x selector = none ↔ selector ∉ [0x9E, 0xA1] := by
  unfold ofKeypadSelector?
  split <;> simp_all

theorem ofDeviceSelector?_eq_none_iff (x : Register) (selector : UInt8) :
    ofDeviceSelector? x selector = none ↔
      selector ∉ [0x07, 0x0A, 0x15, 0x18, 0x1E, 0x33, 0x55, 0x65] := by
  unfold ofDeviceSelector?
  split <;> simp_all

variable {word : Word}

theorem denotes_ofAddress_iff (family : word.family.val = 0x0) (instruction : Instruction) :
    ofAddress word.address = instruction ↔ word.Denotes instruction := by
  unfold ofAddress
  split
  · next blank => cases instruction <;> simp [Word.Denotes, family, blank]
  · split
    · next leave => cases instruction <;> simp [Word.Denotes, family, leave]
    · next other special => cases instruction <;> simp [Word.Denotes, family, other, special]

theorem denotes_combine_iff (family : word.family.val = 0x8) (instruction : Instruction) :
    (Combination.ofDigit? word.lastDigit).map (.combine · word.x word.y) = some instruction ↔
      word.Denotes instruction := by
  rw [Option.map_eq_some_iff]
  simp only [Combination.ofDigit?_eq_some_iff]
  constructor
  · rintro ⟨combination, selected, rfl⟩
    exact ⟨family, selected, rfl, rfl⟩
  · intro denotes
    cases instruction with
    | combine combination x y =>
        obtain ⟨_, selected, rfl, rfl⟩ := denotes
        exact ⟨combination, selected, rfl⟩
    | _ => cases family.symm.trans denotes.1

theorem denotes_ofKeypadSelector_iff (family : word.family.val = 0xE) (instruction : Instruction) :
    ofKeypadSelector? word.x word.lowByte = some instruction ↔ word.Denotes instruction := by
  unfold ofKeypadSelector?
  split
  case h_3 =>
    cases instruction <;> simp [Word.Denotes, family]
    all_goals intro selected
    all_goals contradiction
  all_goals next selected => cases instruction <;> simp [Word.Denotes, family, selected]

theorem denotes_ofDeviceSelector_iff (family : word.family.val = 0xF) (instruction : Instruction) :
    ofDeviceSelector? word.x word.lowByte = some instruction ↔ word.Denotes instruction := by
  unfold ofDeviceSelector?
  split
  case h_9 =>
    cases instruction <;> simp [Word.Denotes, family]
    all_goals intro selected
    all_goals contradiction
  all_goals next selected => cases instruction <;> simp [Word.Denotes, family, selected]

theorem decode?_eq_none_iff (word : Word) : decode? word = none ↔ word.Unsupported := by
  unfold decode? Word.Unsupported
  split
  case h_9 family => simp +decide [family, Combination.ofDigit?_eq_none_iff]
  case h_15 family => simp +decide [family, ofKeypadSelector?_eq_none_iff]
  case h_16 =>
    have family : word.family.val = 15 := by
      have := word.family.isLt
      grind
    rw [ofDeviceSelector?_eq_none_iff, family]
    simp
  all_goals next family => simp +decide [family]

theorem decode?_eq_some_iff (word : Word) (instruction : Instruction) :
    decode? word = some instruction ↔ word.Denotes instruction := by
  unfold decode?
  split
  case h_1 family =>
    rw [Option.some_inj]
    exact denotes_ofAddress_iff (congrArg Fin.val family) instruction
  case h_9 family => exact denotes_combine_iff (congrArg Fin.val family) instruction
  case h_15 family => exact denotes_ofKeypadSelector_iff (congrArg Fin.val family) instruction
  case h_16 =>
    have family : word.family.val = 15 := by
      have := word.family.isLt
      grind
    exact denotes_ofDeviceSelector_iff family instruction
  all_goals next family => cases instruction <;> simp +decide [Word.Denotes, family]

end Instruction

end Chip8
