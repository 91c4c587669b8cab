import Chip8.Machine.Step
import Chip8.Proofs.Instruction.Decoding

/-!
# What one instruction can do

`Effect` lists the turns that an instruction can come to, with what decides between them, and leaves
open only the values that an instruction computes; facts about runs are derived from it and do not
open the instructions again. An instruction that meets an obstacle is refused, and a refusal hands
back the machine as it came. `Transfer` is the part of an effect that concerns control and the call
stack.
-/

namespace Chip8

namespace Instruction

def isSkip : Instruction → Bool
  | .skipIfByte _ _ | .skipUnlessByte _ _ | .skipIfSame _ _ | .skipUnlessSame _ _
  | .skipIfHeld _ | .skipUnlessHeld _ => true
  | _ => false

/-- Whether an instruction writes registers from what the machine holds. -/
def isCalculation : Instruction → Bool
  | .setByte _ _ | .addByte _ _ | .combine _ _ _ | .readDelay _ | .loadRegisters _ => true
  | _ => false

def isStore : Instruction → Bool
  | .storeDecimal _ | .storeRegisters _ => true
  | _ => false

end Instruction

namespace Machine

variable {σ : Type}

theorem skipWhen_eq (machine : Machine σ) (taken : Bool) :
    machine.skipWhen taken = machine.goTo (machine.counter + if taken then 4 else 2) := by
  cases taken
  · rfl
  · rfl

theorem combine_eq_with_registers (machine : Machine σ) (combination : Combination)
    (x y : Register) :
    ∃ registers, machine.combine combination x y = { machine with registers := registers } := by
  unfold combine
  dsimp only
  split
  · exact ⟨_, rfl⟩
  · exact ⟨_, rfl⟩

@[simp]
theorem length_registersThrough (machine : Machine σ) (x : Register) :
    (machine.registersThrough x).length = x + 1 := by
  have := x.isLt
  simp only [registersThrough, List.length_take, Vector.length_toList]
  omega

theorem store_of_le {machine : Machine σ} {bytes : List UInt8}
    (fits : machine.index.toNat + bytes.length ≤ 0x1000) :
    machine.store bytes =
      .running { machine with
        memory := overwrite machine.memory machine.index.toNat bytes }.advance := by
  simp [store, fits]

theorem store_of_lt {machine : Machine σ} {bytes : List UInt8}
    (past : 0x1000 < machine.index.toNat + bytes.length) :
    machine.store bytes = .refused (.outOfBounds (max machine.index.toNat 0x1000)) machine := by
  simp [store, past]

variable [CallStack σ]

/-- The faults that stand in the way of an instruction. -/
inductive Obstacle (machine : Machine σ) : Instruction → Fault → Prop where
  | underflow (empty : CallStack.pop? machine.calls = none) :
      Obstacle machine .leave .stackUnderflow
  | overflow (address : Address)
      (full : min machine.config.stackLimit 16 ≤ CallStack.depth machine.calls) :
      Obstacle machine (.call address) (.stackOverflow (CallStack.depth machine.calls + 1))
  | outOfBounds {instruction : Instruction} {length : Nat}
      (span : instruction.span? = some length)
      (past : 0x1000 < machine.index.toNat + length) :
      Obstacle machine instruction (.outOfBounds (max machine.index.toNat 0x1000))

theorem Obstacle.execute_eq {machine : Machine σ} {instruction : Instruction} {fault : Fault}
    (obstacle : machine.Obstacle instruction fault) :
    machine.execute instruction = .refused fault machine := by
  cases obstacle with
  | underflow empty => simp only [execute, CallStack.pop, empty]
  | overflow address full =>
      simp only [execute, CallStack.pushWithin, if_neg (Nat.not_lt.mpr full)]
  | outOfBounds span past =>
      cases instruction with
      | draw | loadRegisters =>
          cases span
          simp [execute, past]
      | storeDecimal =>
          cases span
          exact store_of_lt past
      | storeRegisters x =>
          cases span
          rw [← machine.length_registersThrough x] at past
          exact store_of_lt past
      | _ => cases span

/-! ## Effects -/

/-- What an instruction can come to. -/
inductive Effect (machine : Machine σ) : Instruction → Turn σ Status → Prop where
  | refuse {instruction : Instruction} {fault : Fault}
      (obstacle : machine.Obstacle instruction fault) :
      Effect machine instruction (.refused fault machine)
  | ignore (address : Address) :
      Effect machine (.machineRoutine address)
        ((Turn.running machine.advance).after (.ignoredRoutine address))
  | clear : Effect machine .blank (.running { machine with screen := Screen.blank }.advance)
  | leave {address : UInt16} {calls : σ}
      (popped : CallStack.pop? machine.calls = some (address, calls)) :
      Effect machine .leave (.running ({ machine with calls := calls }.goTo address.toNat))
  | jump (address : Address) : Effect machine (.jump address) (.running (machine.goTo address))
  | call (address : Address)
      (room : CallStack.depth machine.calls < min machine.config.stackLimit 16) :
      Effect machine (.call address) (.running ({ machine with
        calls := CallStack.push machine.calls (UInt16.ofNat (machine.counter + 2)) }.goTo address))
  | jumpFrom (address : Address) :
      Effect machine (.jumpFrom address)
        (.running (machine.goTo ((machine.registers.get Register.first).toNat + address)))
  | skip {instruction : Instruction} (kind : instruction.isSkip) (taken : Bool) :
      Effect machine instruction (.running (machine.skipWhen taken))
  | calculate {instruction : Instruction} (kind : instruction.isCalculation)
      (registers : Vector UInt8 16) :
      Effect machine instruction (.running { machine with registers := registers }.advance)
  | setIndex (address : Address) :
      Effect machine (.setIndex address)
        (.running { machine with index := UInt16.ofNat address }.advance)
  | addIndex (x : Register) :
      Effect machine (.addIndex x)
        (.running { machine with
          index := machine.index + (machine.registers.get x).toUInt16 }.advance)
  | random (x : Register) (mask : UInt8) :
      Effect machine (.random x mask) (.running (machine.drawRandom x mask).advance)
  | draw {x y : Register} {rows : Fin 16} (sprite : Sprite) :
      Effect machine (.draw x y rows) (.running (machine.drawSprite sprite x y).advance)
  | take {x : Register} {key : Key} (held : machine.held? = some key) :
      Effect machine (.awaitKey x) (.running
        ({ machine with held? := none, waiting := false }.setRegister x key.toByte).advance)
  | park {x : Register} (empty : machine.held? = none) (events : List Event) :
      Effect machine (.awaitKey x) ⟨.ok .awaitingKey, { machine with waiting := true }, events⟩
  | setDelay (x : Register) :
      Effect machine (.setDelay x)
        (.running { machine with delay := machine.registers.get x }.advance)
  | setSound (x : Register) :
      Effect machine (.setSound x)
        (.running { machine with sound := machine.registers.get x }.advance)
  | store {instruction : Instruction} (kind : instruction.isStore) (bytes : List UInt8)
      (span : instruction.span? = some bytes.length) :
      Effect machine instruction (.running { machine with
        memory := overwrite machine.memory machine.index.toNat bytes }.advance)

theorem effect_store (machine : Machine σ) {instruction : Instruction}
    (kind : instruction.isStore) {bytes : List UInt8}
    (span : instruction.span? = some bytes.length) :
    machine.Effect instruction (machine.store bytes) := by
  rcases Nat.lt_or_ge 0x1000 (machine.index.toNat + bytes.length) with past | fits
  · rw [store_of_lt past]
    exact .refuse (.outOfBounds span past)
  · rw [store_of_le fits]
    exact .store kind bytes span

theorem effect_execute (machine : Machine σ) (instruction : Instruction) :
    machine.Effect instruction (machine.execute instruction) := by
  cases instruction with
  | machineRoutine address => exact .ignore address
  | blank => exact .clear
  | leave =>
      cases popped : CallStack.pop? machine.calls with
      | none =>
          have obstacle := Obstacle.underflow popped
          rw [obstacle.execute_eq]
          exact .refuse obstacle
      | some top =>
          simp only [execute, CallStack.pop, popped]
          exact .leave popped
  | jump address => exact .jump address
  | call address =>
      rcases Nat.lt_or_ge (CallStack.depth machine.calls) (min machine.config.stackLimit 16) with
        room | full
      · simp only [execute, CallStack.pushWithin, if_pos room]
        exact .call address room
      · have obstacle := Obstacle.overflow address full
        rw [obstacle.execute_eq]
        exact .refuse obstacle
  | skipIfByte | skipUnlessByte | skipIfSame | skipUnlessSame | skipIfHeld | skipUnlessHeld =>
      exact .skip rfl _
  | setByte | addByte | readDelay => exact .calculate rfl _
  | combine combination x y =>
      obtain ⟨registers, combined⟩ := machine.combine_eq_with_registers combination x y
      simp only [execute, combined]
      exact .calculate rfl registers
  | setIndex address => exact .setIndex address
  | addIndex x => exact .addIndex x
  | jumpFrom address => exact .jumpFrom address
  | random x mask => exact .random x mask
  | draw x y rows =>
      rcases Nat.lt_or_ge 0x1000 (machine.index.toNat + rows) with past | fits
      · have obstacle : machine.Obstacle (.draw x y rows) _ := .outOfBounds rfl past
        rw [obstacle.execute_eq]
        exact .refuse obstacle
      · simp only [execute, Memory.read_of_le fits]
        exact .draw _
  | awaitKey x =>
      simp only [execute]
      split
      · next key held => exact .take held
      · next empty => exact .park empty _
  | setDelay x => exact .setDelay x
  | setSound x => exact .setSound x
  | storeDecimal => exact machine.effect_store rfl rfl
  | storeRegisters x =>
      exact machine.effect_store rfl (by rw [machine.length_registersThrough, Instruction.span?])
  | loadRegisters x =>
      rcases Nat.lt_or_ge 0x1000 (machine.index.toNat + (x + 1)) with past | fits
      · have obstacle : machine.Obstacle (.loadRegisters x) _ := .outOfBounds rfl past
        rw [obstacle.execute_eq]
        exact .refuse obstacle
      · simp only [execute, Memory.read_of_le fits]
        exact .calculate rfl _

theorem answer_execute_iff (machine : Machine σ) (instruction : Instruction) (fault : Fault) :
    (machine.execute instruction).answer = .error fault ↔ machine.Obstacle instruction fault := by
  constructor
  · intro refused
    have effect := machine.effect_execute instruction
    generalize machine.execute instruction = turn at effect refused
    cases effect with
    | refuse obstacle =>
        cases refused
        exact obstacle
    | _ => cases refused
  · intro obstacle
    rw [obstacle.execute_eq]
    rfl

/-- Where control goes and what becomes of the call stack. -/
inductive Transfer (machine : Machine σ) : Nat → σ → Prop where
  | stay : Transfer machine machine.counter machine.calls
  | next : Transfer machine (machine.counter + 2) machine.calls
  | skip : Transfer machine (machine.counter + 4) machine.calls
  | jump (address : Address) : Transfer machine address machine.calls
  | jumpFrom (byte : UInt8) (address : Address) :
      Transfer machine (byte.toNat + address) machine.calls
  | call (address : Address)
      (room : CallStack.depth machine.calls < min machine.config.stackLimit 16) :
      Transfer machine address
        (CallStack.push machine.calls (UInt16.ofNat (machine.counter + 2)))
  | leave {address : UInt16} {calls : σ}
      (popped : CallStack.pop? machine.calls = some (address, calls)) :
      Transfer machine address.toNat calls

theorem Effect.transfer {machine : Machine σ} {instruction : Instruction} {turn : Turn σ Status}
    (effect : machine.Effect instruction turn) :
    machine.Transfer turn.machine.counter turn.machine.calls := by
  cases effect with
  | refuse | park => exact .stay
  | leave popped => exact .leave popped
  | jump address => exact .jump address
  | call address room => exact .call address room
  | jumpFrom address => exact .jumpFrom _ address
  | skip _ taken =>
      cases taken
      · exact .next
      · exact .skip
  | _ => exact .next

theorem Effect.config_eq {machine : Machine σ} {instruction : Instruction} {turn : Turn σ Status}
    (effect : machine.Effect instruction turn) : turn.machine.config = machine.config := by
  cases effect with
  | skip =>
      rw [skipWhen_eq]
      rfl
  | _ => rfl

omit [CallStack σ] in
theorem counter_lt_of_upcoming {machine : Machine σ} {instruction : Instruction}
    (decoded : machine.upcoming = .ok instruction) : machine.counter < 0xFFF := by
  rcases Nat.lt_or_ge machine.counter 0xFFF with inside | beyond
  · exact inside
  · have past : 0x1000 < machine.counter + 2 := by omega
    simp only [upcoming, Memory.wordAt, Memory.read_of_lt past] at decoded
    cases decoded

/-- A step is refused where nothing can be read or decoded, and otherwise has an effect. -/
theorem step_cases (machine : Machine σ) :
    (∃ fault, machine.upcoming = .error fault ∧ machine.step = .refused fault machine) ∨
      ∃ instruction turn, machine.upcoming = .ok instruction ∧
        machine.Effect instruction turn ∧
        machine.step = turn.after (.executing machine.counter instruction) := by
  unfold step
  cases machine.upcoming with
  | error fault => exact .inl ⟨fault, rfl, rfl⟩
  | ok instruction =>
      exact .inr ⟨instruction, _, rfl, machine.effect_execute instruction, rfl⟩

end Machine

end Chip8
