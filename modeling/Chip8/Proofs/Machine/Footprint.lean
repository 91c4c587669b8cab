import Mathlib.Control.Monad.Basic
import Chip8.Proofs.Machine.Faults
import Chip8.Proofs.Memory

/-!
# What an instruction leaves alone

Besides the program counter and the registers, an instruction changes at most one part of the
machine, and never the configuration. A store changes memory inside its span alone, a register is
written only by the few instructions that name it, by those that give a flag and by a load of
registers, and control goes on to the next word unless the instruction itself says where else.
-/

namespace Chip8

/-- What a machine has besides its program counter, registers and configuration. -/
inductive Part where
  | memory
  | screen
  | calls
  | index
  | delay
  | sound
  | keypad
  | random
  deriving DecidableEq

/-- The one part that an instruction may change. -/
def Instruction.part? : Instruction → Option Part
  | .storeDecimal _ | .storeRegisters _ => some .memory
  | .blank | .draw _ _ _ => some .screen
  | .leave | .call _ => some .calls
  | .setIndex _ | .addIndex _ => some .index
  | .setDelay _ => some .delay
  | .setSound _ => some .sound
  | .awaitKey _ => some .keypad
  | .random _ _ => some .random
  | _ => none

namespace Machine

section

variable {σ : Type}

def Agree (first second : Machine σ) : Part → Prop
  | .memory => second.memory = first.memory
  | .screen => second.screen = first.screen
  | .calls => second.calls = first.calls
  | .index => second.index = first.index
  | .delay => second.delay = first.delay
  | .sound => second.sound = first.sound
  | .keypad => (second.held?, second.waiting) = (first.held?, first.waiting)
  | .random => second.random = first.random

theorem agree_of_control (machine : Machine σ) (counter : Nat) (registers : Vector UInt8 16)
    (part : Part) :
    machine.Agree { machine with counter := counter, registers := registers } part := by
  cases part <;> rfl

variable [CallStack σ] {machine : Machine σ} {instruction : Instruction} {turn : Turn σ Status}

theorem Effect.agree (effect : machine.Effect instruction turn) {part : Part}
    (other : instruction.part? ≠ some part) : machine.Agree turn.machine part := by
  cases effect with
  | refuse | ignore | jump | jumpFrom | calculate => exact machine.agree_of_control _ _ part
  | skip =>
      rw [skipWhen_eq]
      exact machine.agree_of_control _ _ part
  | clear | draw =>
      cases part with
      | screen => exact absurd rfl other
      | _ => rfl
  | leave | call =>
      cases part with
      | calls => exact absurd rfl other
      | _ => rfl
  | setIndex | addIndex =>
      cases part with
      | index => exact absurd rfl other
      | _ => rfl
  | random =>
      cases part with
      | random => exact absurd rfl other
      | _ => rfl
  | take | park =>
      cases part with
      | keypad => exact absurd rfl other
      | _ => rfl
  | setDelay =>
      cases part with
      | delay => exact absurd rfl other
      | _ => rfl
  | setSound =>
      cases part with
      | sound => exact absurd rfl other
      | _ => rfl
  | store kind =>
      cases part with
      | memory =>
          cases instruction with
          | storeDecimal | storeRegisters => exact absurd rfl other
          | _ => cases kind
      | _ => rfl

/-- A refusal changes nothing, and a wait nothing but the keypad. -/
theorem Effect.agree_of_completed (effect : machine.Effect instruction turn) {part : Part}
    (apart : part ≠ .keypad)
    (other : turn.answer = .ok .running → instruction.part? ≠ some part) :
    machine.Agree turn.machine part := by
  by_cases running : turn.answer = .ok .running
  · exact effect.agree (other running)
  · cases effect with
    | refuse => exact machine.agree_of_control _ _ part
    | park =>
        cases part with
        | keypad => exact absurd rfl apart
        | _ => rfl
    | _ => exact absurd rfl running

theorem agree_step (part : Part) (apart : part ≠ .keypad)
    (other : ∀ instruction, Occasion.completed? ⟨machine, .step⟩ = some instruction →
      instruction.part? ≠ some part) : machine.Agree machine.step.machine part := by
  rcases machine.step_cases_completed with
    ⟨_, refused⟩ | ⟨instruction, turn, effect, taken, completed⟩
  · rw [refused]
    exact machine.agree_of_control _ _ part
  · rw [taken]
    exact effect.agree_of_completed apart fun running => other instruction (completed running)

/-- Outside its span an instruction changes no byte of memory. -/
theorem Effect.memory_get (effect : machine.Effect instruction turn) {address : Nat}
    (inside : address < 0x1000)
    (outside : ∀ length, instruction.span? = some length →
      address < machine.index.toNat ∨ machine.index.toNat + length ≤ address) :
    turn.machine.memory[address] = machine.memory[address] := by
  cases effect with
  | store _ bytes span => exact getElem_overwrite_of_outside _ bytes inside (outside _ span)
  | skip =>
      rw [skipWhen_eq]
      rfl
  | _ => rfl

end

end Machine

/-! ## Registers -/

/-- Whether a combination gives a flag beside its result. -/
def Combination.givesFlag : Combination → Bool
  | .add | .subtract | .shiftRight | .subtractFrom | .shiftLeft => true
  | _ => false

theorem Combination.givesFlag_of_flag? {combination : Combination} {left right value : UInt8}
    (given : (combination.apply left right).flag? = some value) : combination.givesFlag = true := by
  cases combination with
  | copy | or | and | xor => cases given
  | _ => rfl

/-- Whether an instruction may write a register when it is answered with the status. -/
def Instruction.Writes (status : Status) (place : Register) : Instruction → Prop
  | .setByte x _ | .addByte x _ | .random x _ | .readDelay x => place = x
  | .combine combination x _ => place = x ∨ place.val = 0xF ∧ combination.givesFlag
  | .draw _ _ _ => place.val = 0xF
  | .awaitKey x => place = x ∧ status = .running
  | .loadRegisters x => place ≤ x
  | _ => False

namespace Machine

section

variable {σ : Type} {machine : Machine σ} {place : Register}

theorem register_setRegister (machine : Machine σ) {x : Register} (other : place ≠ x)
    (value : UInt8) :
    (machine.setRegister x value).registers.get place = machine.registers.get place :=
  Vector.getElem_set_ne x.isLt place.isLt fun same => other (Fin.ext same.symm)

@[simp]
theorem register_setRegister_self (machine : Machine σ) (x : Register) (value : UInt8) :
    (machine.setRegister x value).registers.get x = value :=
  Vector.getElem_set_self x.isLt

theorem register_setFlag (machine : Machine σ) (other : place.val ≠ 0xF) (value : UInt8) :
    (machine.setRegister .flag value).registers.get place = machine.registers.get place :=
  machine.register_setRegister (fun same => other (congrArg Fin.val same)) value

theorem register_drawSprite (sprite : Sprite) (x y : Register) (other : place.val ≠ 0xF) :
    (machine.drawSprite sprite x y).registers.get place = machine.registers.get place := by
  rw [drawSprite, register_setFlag _ other]
  exact machine.register_setFlag other 0

theorem register_combine {combination : Combination} {x : Register} (y : Register)
    (unwritten : ¬ (place = x ∨ place.val = 0xF ∧ combination.givesFlag)) :
    (machine.combine combination x y).registers.get place = machine.registers.get place := by
  have apart : place ≠ x := fun same => unwritten (.inl same)
  simp only [combine]
  split
  · exact machine.register_setRegister apart _
  · next value given =>
      have flag := Combination.givesFlag_of_flag? given
      rw [register_setFlag _ fun same => unwritten (.inr ⟨same, flag⟩)]
      exact machine.register_setRegister apart _

variable [CallStack σ] {instruction : Instruction} {status : Status}

theorem register_calculation (kind : instruction.isCalculation)
    (unwritten : ¬ instruction.Writes status place) :
    (machine.execute instruction).machine.registers.get place = machine.registers.get place := by
  cases instruction with
  | setByte | addByte | readDelay => exact machine.register_setRegister unwritten _
  | combine combination x y => exact register_combine y unwritten
  | loadRegisters x =>
      simp only [execute]
      split
      · rfl
      · next bytes read =>
          have above : 0 + bytes.toList.length ≤ place := by
            rw [Vector.length_toList, Nat.zero_add]
            exact Nat.not_le.mp unwritten
          exact getElem_overwrite_of_outside _ _ place.isLt (.inr above)
  | _ => cases kind

theorem register_execute (answered : (machine.execute instruction).answer = .ok status)
    (unwritten : ¬ instruction.Writes status place) :
    (machine.execute instruction).machine.registers.get place = machine.registers.get place := by
  -- An effect leaves open which registers a calculation writes, so those are read off execution.
  cases kind : instruction.isCalculation with
  | true => exact register_calculation kind unwritten
  | false =>
      have effect := machine.effect_execute instruction
      generalize machine.execute instruction = turn at effect answered ⊢
      cases effect with
      | calculate calculation => cases calculation.symm.trans kind
      | random x mask => exact register_setRegister _ unwritten _
      | draw sprite => exact register_drawSprite sprite _ _ unwritten
      | take held =>
          cases answered
          exact register_setRegister _ (fun same => unwritten ⟨same, rfl⟩) _
      | skip =>
          rw [skipWhen_eq]
          rfl
      | _ => rfl

end

section

variable {σ : Type}

/-- Whether the condition of a skip holds. -/
def skips (machine : Machine σ) : Instruction → Bool
  | .skipIfByte x byte => machine.registers.get x == byte
  | .skipUnlessByte x byte => machine.registers.get x != byte
  | .skipIfSame x y => machine.registers.get x == machine.registers.get y
  | .skipUnlessSame x y => machine.registers.get x != machine.registers.get y
  | .skipIfHeld x => machine.held?.map Key.toByte == some (machine.registers.get x)
  | .skipUnlessHeld x => machine.held?.map Key.toByte != some (machine.registers.get x)
  | _ => false

theorem holdsKeyOf_eq (machine : Machine σ) (x : Register) :
    machine.holdsKeyOf x = (machine.held?.map Key.toByte == some (machine.registers.get x)) := by
  unfold holdsKeyOf
  cases machine.held? with
  | none => rfl
  | some key => rfl

theorem execute_of_isSkip [CallStack σ] (machine : Machine σ) {instruction : Instruction}
    (kind : instruction.isSkip) :
    machine.execute instruction = .running (machine.skipWhen (machine.skips instruction)) := by
  cases instruction with
  | skipIfByte | skipUnlessByte | skipIfSame | skipUnlessSame => rfl
  | skipIfHeld | skipUnlessHeld =>
      simp only [execute, skips, holdsKeyOf_eq, bne]
  | _ => cases kind

end

/-- Where an instruction sends control, if not to the next word. -/
def target? (machine : Machine Slots) (instruction : Instruction) : Option Nat :=
  match instruction with
  | .jump address | .call address => some address
  | .jumpFrom address => some ((machine.registers.get Register.first).toNat + address)
  | .leave => machine.calls.toList.getLast?.map UInt16.toNat
  | skip => if machine.skips skip then some (machine.counter + 4) else none

/-- Where control stands after an instruction that is answered with the status. -/
def successor (machine : Machine Slots) (instruction : Instruction) : Status → Nat
  | .awaitingKey => machine.counter
  | .running => (machine.target? instruction).getD (machine.counter + 2)

variable {machine : Machine Slots} {instruction : Instruction} {status : Status}

theorem successor_of_isSkip (kind : instruction.isSkip) :
    machine.successor instruction .running =
      machine.counter + if machine.skips instruction then 4 else 2 := by
  have target : machine.target? instruction =
      if machine.skips instruction then some (machine.counter + 4) else none := by
    cases instruction with
    | skipIfByte | skipUnlessByte | skipIfSame | skipUnlessSame | skipIfHeld | skipUnlessHeld => rfl
    | _ => cases kind
  rw [successor, target]
  split
  · rfl
  · rfl

theorem Effect.counter_eq {turn : Turn Slots Status} (effect : machine.Effect instruction turn)
    (fits : machine.calls.live ≤ 16) (straight : instruction.isSkip = false)
    (answered : turn.answer = .ok status) :
    turn.machine.counter = machine.successor instruction status := by
  cases effect with
  | refuse => cases answered
  | skip kind => cases kind.symm.trans straight
  | @leave address calls popped =>
      cases answered
      have top : machine.calls.toList.getLast? = some address := by
        rw [Slots.toList_of_pop? fits popped, List.getLast?_concat]
      have target : machine.target? .leave = some address.toNat :=
        congrArg (Option.map UInt16.toNat) top
      rw [successor, target]
      rfl
  | calculate kind | store kind =>
      cases answered
      cases instruction with
      | setByte | addByte | combine | readDelay | loadRegisters => rfl
      | storeDecimal | storeRegisters => rfl
      | _ => cases kind
  | _ =>
      cases answered
      rfl

theorem counter_execute (fits : machine.calls.live ≤ 16)
    (answered : (machine.execute instruction).answer = .ok status) :
    (machine.execute instruction).machine.counter = machine.successor instruction status := by
  -- An effect leaves open whether a skip applies, so those are read off execution.
  cases kind : instruction.isSkip with
  | true =>
      rw [machine.execute_of_isSkip kind] at answered ⊢
      cases answered
      rw [successor_of_isSkip kind, skipWhen_eq]
      rfl
  | false => exact (machine.effect_execute instruction).counter_eq fits kind answered

/-- What a machine may differ in after it carried out an instruction. -/
structure Footprint (machine : Machine Slots) (instruction : Instruction) (status : Status)
    (after : Machine Slots) : Prop where
  agree : ∀ part, instruction.part? ≠ some part → machine.Agree after part
  memory_get : ∀ address (_ : address < 0x1000),
    (∀ length, instruction.span? = some length →
      address < machine.index.toNat ∨ machine.index.toNat + length ≤ address) →
    after.memory[address] = machine.memory[address]
  register_get : ∀ place, ¬ instruction.Writes status place →
    after.registers.get place = machine.registers.get place
  config_eq : after.config = machine.config
  counter_eq : after.counter = machine.successor instruction status

theorem footprint_execute (sound : machine.Sound)
    (answered : (machine.execute instruction).answer = .ok status) :
    machine.Footprint instruction status (machine.execute instruction).machine where
  agree _ other := (machine.effect_execute instruction).agree other
  memory_get _ inside outside := (machine.effect_execute instruction).memory_get inside outside
  register_get _ unwritten := register_execute answered unwritten
  config_eq := (machine.effect_execute instruction).config_eq
  counter_eq := counter_execute sound.live_le answered

/-- Every step that is not refused carries out the instruction that the word at the program counter
denotes, and leaves alone what is not the instruction's to change. -/
theorem footprint_step (reachable : machine.Reachable)
    (answered : machine.step.answer = .ok status) :
    ∃ word instruction, machine.memory.wordAt machine.counter = .ok word ∧
      word.Denotes instruction ∧
      machine.Footprint instruction status machine.step.machine := by
  cases decoded : machine.upcoming with
  | error fault => cases (answer_step_of_error decoded).symm.trans answered
  | ok instruction =>
      obtain ⟨word, fetched, denotes⟩ := exists_word_of_upcoming decoded
      rw [answer_step_of_ok decoded] at answered
      rw [machine_step_of_ok decoded]
      exact ⟨word, instruction, fetched, denotes, footprint_execute reachable.sound answered⟩

/-- The last return from a subroutine that has stored registers over the last bytes of memory, and
before that the store. -/
theorem footprint_step_subroutine :
    let blank : Machine Slots := powerOn ⟨1, some 4⟩ (Vector.replicate 8 0)
    let storing := blank.performAll [.load [0x2204, 0x00E0, 0xAFFD, 0xF255, 0x00EE], .run 2]
    let leaving := storing.step.machine
    (storing.Reachable ∧ storing.step.answer = .ok .running ∧
      storing.Footprint (.storeRegisters ⟨2, by decide⟩) .running leaving) ∧
    (leaving.Reachable ∧ leaving.step.answer = .ok .running ∧
      leaving.Footprint .leave .running leaving.step.machine) := by
  intro blank storing leaving
  have accepted : ofConfig ⟨1, some 4⟩ (Vector.replicate 8 0) = .ok blank := rfl
  have reachable : storing.Reachable := (Reachable.powerOn accepted).performAll _
  have later : leaving.Reachable := .perform reachable .step
  obtain ⟨stored, storeWord, left, leaveWord⟩ :
      storing.step.answer = .ok .running ∧ storing.memory.wordAt storing.counter = .ok 0xF255 ∧
        leaving.step.answer = .ok .running ∧
        leaving.memory.wordAt leaving.counter = .ok 0x00EE := by decide +kernel
  obtain ⟨word, instruction, fetched, denotes, footprint⟩ := footprint_step reachable stored
  cases storeWord.symm.trans fetched
  cases (Instruction.decode?_eq_some_iff 0xF255 instruction).mpr denotes
  obtain ⟨other, last, fetchedLast, denotesLast, footprintLast⟩ := footprint_step later left
  cases leaveWord.symm.trans fetchedLast
  cases (Instruction.decode?_eq_some_iff 0x00EE last).mpr denotesLast
  exact ⟨⟨reachable, stored, footprint⟩, later, left, footprintLast⟩

end Machine

end Chip8
