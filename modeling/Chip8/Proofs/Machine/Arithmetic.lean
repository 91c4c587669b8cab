import Chip8.Proofs.Arithmetic
import Chip8.Proofs.Machine.Footprint

/-!
# The step that combines registers

A word of family 8 combines what two registers held before the step, be they the same register or
the flag. The result goes to the first of them and the flag is written after it, so it is the flag
that stays when both go to one register. Nothing else changes but the counter.
-/

namespace Chip8.Machine

variable {σ : Type}

/-- The machine has gone on by a word with a value in a register. -/
structure SetsRegister (machine : Machine σ) (x : Register) (value : UInt8) (after : Machine σ) :
    Prop where
  machine_eq : after = { machine with
    counter := machine.counter + 2
    registers := after.registers }
  get_self : after.registers.get x = value
  get_other : ∀ place, place ≠ x → after.registers.get place = machine.registers.get place

/-- The machine has gone on by a word with a value in a register, and a flag written last. -/
structure SetsWithFlag (machine : Machine σ) (x : Register) (value flag : UInt8)
    (after : Machine σ) : Prop where
  machine_eq : after = { machine with
    counter := machine.counter + 2
    registers := after.registers }
  get_flag : after.registers.get Register.flag = flag
  get_self : x.val ≠ 0xF → after.registers.get x = value
  get_other : ∀ place, place ≠ x → place.val ≠ 0xF →
    after.registers.get place = machine.registers.get place

theorem setsRegister_setRegister (machine : Machine σ) (x : Register) (value : UInt8) :
    machine.SetsRegister x value (machine.setRegister x value).advance where
  machine_eq := rfl
  get_self := machine.register_setRegister_self x value
  get_other _ other := machine.register_setRegister other value

theorem setsWithFlag_setRegister (machine : Machine σ) (x : Register) (value flag : UInt8) :
    machine.SetsWithFlag x value flag
      ((machine.setRegister x value).setRegister .flag flag).advance where
  machine_eq := rfl
  get_flag := register_setRegister_self _ _ flag
  get_self other :=
    (register_setFlag _ other flag).trans (machine.register_setRegister_self x value)
  get_other _ other unflagged :=
    (register_setFlag _ unflagged flag).trans (machine.register_setRegister other value)

/-- What is written decides what the two registers hold. -/
theorem SetsWithFlag.get_eq {machine other after afterOther : Machine σ} {x : Register}
    {value flag : UInt8} (first : machine.SetsWithFlag x value flag after)
    (second : other.SetsWithFlag x value flag afterOther) :
    afterOther.registers.get x = after.registers.get x ∧
      afterOther.registers.get Register.flag = after.registers.get Register.flag := by
  have flags := second.get_flag.trans first.get_flag.symm
  by_cases same : x.val = 0xF
  · obtain rfl : x = Register.flag := Fin.ext same
    exact ⟨flags, flags⟩
  · exact ⟨(second.get_self same).trans (first.get_self same).symm, flags⟩

section

variable {machine : Machine σ} {combination : Combination} {x y : Register} {value flag : UInt8}

theorem setsRegister_combine
    (given : combination.apply (machine.registers.get x) (machine.registers.get y) =
      { value := value }) :
    machine.SetsRegister x value (machine.combine combination x y).advance := by
  have combined : machine.combine combination x y = machine.setRegister x value := by
    have applied : combination.apply machine.registers[x] machine.registers[y] =
        { value := value } := given
    simp only [combine, applied]
  rw [combined]
  exact machine.setsRegister_setRegister x value

theorem setsWithFlag_combine
    (given : combination.apply (machine.registers.get x) (machine.registers.get y) =
      ⟨value, some flag⟩) :
    machine.SetsWithFlag x value flag (machine.combine combination x y).advance := by
  have combined : machine.combine combination x y =
      (machine.setRegister x value).setRegister .flag flag := by
    have applied : combination.apply machine.registers[x] machine.registers[y] =
        ⟨value, some flag⟩ := given
    simp only [combine, applied]
  rw [combined]
  exact machine.setsWithFlag_setRegister x value flag

variable [CallStack σ] {word : Word}

theorem step_of_combine (fetched : machine.memory.wordAt machine.counter = .ok word)
    (family : word.family.val = 0x8) (digit : word.lastDigit.val = combination.digit) :
    machine.step.answer = .ok .running ∧
      machine.step.machine = (machine.combine combination word.x word.y).advance := by
  have decoded : machine.upcoming = .ok (.combine combination word.x word.y) :=
    (upcoming_eq_ok_iff fetched _).mpr ⟨family, digit, rfl, rfl⟩
  exact ⟨answer_step_of_ok decoded, machine_step_of_ok decoded⟩

theorem step_setsRegister (fetched : machine.memory.wordAt machine.counter = .ok word)
    (family : word.family.val = 0x8) (digit : word.lastDigit.val = combination.digit)
    (given : combination.apply (machine.registers.get word.x) (machine.registers.get word.y) =
      { value := value }) :
    machine.step.answer = .ok .running ∧
      machine.SetsRegister word.x value machine.step.machine := by
  obtain ⟨answer, finish⟩ := step_of_combine fetched family digit
  rw [finish]
  exact ⟨answer, setsRegister_combine given⟩

theorem step_setsWithFlag (fetched : machine.memory.wordAt machine.counter = .ok word)
    (family : word.family.val = 0x8) (digit : word.lastDigit.val = combination.digit)
    (given : combination.apply (machine.registers.get word.x) (machine.registers.get word.y) =
      ⟨value, some flag⟩) :
    machine.step.answer = .ok .running ∧
      machine.SetsWithFlag word.x value flag machine.step.machine := by
  obtain ⟨answer, finish⟩ := step_of_combine fetched family digit
  rw [finish]
  exact ⟨answer, setsWithFlag_combine given⟩

end

/-- A step on a word of family 8 combines what the two registers held before it. The first four
digits write one register. The others also write the flag, last, and satisfy their equation; a
difference is taken modulo 256, and a shift gives the same whatever the other registers hold. -/
theorem arithmetic_step [CallStack σ] {machine : Machine σ} {word : Word}
    (fetched : machine.memory.wordAt machine.counter = .ok word)
    (family : word.family.val = 0x8) :
    let digit := word.lastDigit.val
    let left := machine.registers.get word.x
    let right := machine.registers.get word.y
    let after := machine.step.machine
    (∀ value, plainResult? digit left right = some value →
      machine.step.answer = .ok .running ∧ machine.SetsRegister word.x value after) ∧
    (digit ∈ [0x4, 0x5, 0x6, 0x7, 0xE] → machine.step.answer = .ok .running ∧
      ∃ value flag, Balanced digit left right value flag ∧
        (digit = 0x5 → Difference left right value flag) ∧
        (digit = 0x7 → Difference right left value flag) ∧
        machine.SetsWithFlag word.x value flag after) ∧
    (digit ∈ [0x6, 0xE] → ∀ registers : Vector UInt8 16, registers.get word.x = left →
      let afterOther := { machine with registers := registers }.step.machine
      afterOther.registers.get word.x = after.registers.get word.x ∧
        afterOther.registers.get Register.flag = after.registers.get Register.flag) := by
  intro digit left right after
  refine ⟨fun value plain => ?_, fun listed => ?_, fun listed registers same => ?_⟩
  · obtain ⟨combination, digitEq, given⟩ := Combination.exists_of_plainResult? plain
    exact step_setsRegister fetched family digitEq given
  · obtain ⟨combination, value, flag, digitEq, given, balanced⟩ :=
      Combination.exists_of_flagDigit listed left right
    obtain ⟨answer, sets⟩ := step_setsWithFlag fetched family digitEq given
    refine ⟨answer, value, flag, balanced, fun difference => ?_, fun difference => ?_, sets⟩
    · rw [difference] at balanced
      exact balanced.difference
    · rw [difference] at balanced
      exact balanced.difference_swapped
  · obtain ⟨combination, value, flag, digitEq, given⟩ :=
      Combination.exists_of_shiftDigit listed left
    have sets := step_setsWithFlag fetched family digitEq (given right)
    have setsOther := @step_setsWithFlag σ { machine with registers := registers } _ value flag _ _
      fetched family digitEq (by rw [same]; exact given _)
    exact sets.2.get_eq setsOther.2

/-- The flag added to itself, with a carry that replaces the sum; and the flag halved, once beside
another register that holds 255 and once with all registers alike. -/
theorem arithmetic_step_on_flag :
    let blank : Machine Slots := powerOn {} (Vector.replicate 8 0)
    let adding := blank.performAll [.load [0x6FC8, 0x8FF4], .run 1]
    let halving := blank.performAll [.load [0x61FF, 0x6FC9, 0x8F16], .run 2]
    let alike := { halving with registers := Vector.replicate 16 201 }
    (adding.memory.wordAt adding.counter = .ok 0x8FF4 ∧
      adding.registers.get Register.flag = 200 ∧
      adding.step.answer = .ok .running ∧
      adding.SetsWithFlag Register.flag 144 1 adding.step.machine) ∧
    (halving.memory.wordAt halving.counter = .ok 0x8F16 ∧
      halving.registers.get Register.flag = 201 ∧
      halving.SetsWithFlag Register.flag 100 1 halving.step.machine ∧
      alike.step.machine.registers.get Register.flag = 1) := by
  intro blank adding halving alike
  obtain ⟨fetchedAdd, leftAdd, fetchedHalf, leftHalf⟩ :
      adding.memory.wordAt adding.counter = .ok 0x8FF4 ∧
      adding.registers.get Register.flag = 200 ∧
      halving.memory.wordAt halving.counter = .ok 0x8F16 ∧
      halving.registers.get Register.flag = 201 := by decide +kernel
  obtain ⟨_, added, _⟩ := arithmetic_step fetchedAdd rfl
  obtain ⟨answer, sum, carry, ⟨_, total⟩, _, _, setsSum⟩ := added (by decide)
  obtain ⟨_, halved, shifted⟩ := arithmetic_step fetchedHalf rfl
  obtain ⟨_, half, dropped, ⟨dropped_le, parts⟩, _, _, setsHalf⟩ := halved (by decide)
  obtain ⟨_, same⟩ := shifted (by decide) (Vector.replicate 16 201) leftHalf.symm
  have doubled : 256 * (carry.toNat : Int) + sum.toNat =
      (adding.registers.get Register.flag).toNat + (adding.registers.get Register.flag).toNat :=
    total
  have whole : 2 * (half.toNat : Int) + dropped.toNat =
      (halving.registers.get Register.flag).toNat := parts
  have operandAdd : (adding.registers.get Register.flag).toNat = 200 :=
    congrArg UInt8.toNat leftAdd
  have operandHalf : (halving.registers.get Register.flag).toNat = 201 :=
    congrArg UInt8.toNat leftHalf
  have := sum.toNat_lt
  obtain ⟨rfl, rfl⟩ : sum = 144 ∧ carry = 1 :=
    ⟨UInt8.toNat_inj.mp (show sum.toNat = 144 by omega),
      UInt8.toNat_inj.mp (show carry.toNat = 1 by omega)⟩
  obtain ⟨rfl, rfl⟩ : half = 100 ∧ dropped = 1 :=
    ⟨UInt8.toNat_inj.mp (show half.toNat = 100 by omega),
      UInt8.toNat_inj.mp (show dropped.toNat = 1 by omega)⟩
  exact ⟨⟨fetchedAdd, leftAdd, answer, setsSum⟩, fetchedHalf, leftHalf, setsHalf,
    same.trans setsHalf.get_flag⟩

end Chip8.Machine
