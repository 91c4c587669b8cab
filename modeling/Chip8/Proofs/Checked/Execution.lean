import Mathlib.Control.Monad.Basic
import Chip8.Proofs.Checked.Memory
import Chip8.Proofs.Checked.Screen
import Chip8.Proofs.Instruction.Decoding
import Chip8.Proofs.Machine.Surroundings
import Chip8.Proofs.Memory

/-!
# Checked instructions

What an instruction does with every operation checked. The digits of a word are cut out by masks and
shifts and are plain numbers, so nothing but their values keeps them inside the registers; the
counter, the index and the number of live addresses are plain numbers too. Where these are as small
as on a sound machine, no operation traps and the instruction does what it does unchecked.
-/

namespace Chip8.Checked

structure Digits where
  family : Nat
  x : Nat
  y : Nat
  last : Nat

def cut (word : Word) : Except Trap Digits := do
  let family ← shiftRight 16 (word.toNat &&& 0xF000) 12
  let x ← shiftRight 16 (word.toNat &&& 0x0F00) 8
  let y ← shiftRight 16 (word.toNat &&& 0x00F0) 4
  return ⟨family, x, y, word.toNat &&& 0x000F⟩

def digitsOf (word : Word) : Digits :=
  ⟨word.family, word.x, word.y, word.lastDigit⟩

theorem masked_digit (number amount : Nat) :
    (number &&& 15 <<< amount) >>> amount = number >>> amount % 16 := by
  rw [Nat.shiftRight_and_distrib, Nat.shiftLeft_shiftRight]
  exact Nat.and_two_pow_sub_one_eq_mod (number >>> amount) 4

@[simp]
theorem cut_eq (word : Word) : cut word = .ok (digitsOf word) := by
  have family : (word.toNat &&& 0xF000) >>> 12 = word.family.val := by
    have small := word.toNat_lt
    rw [show 0xF000 = 15 <<< 12 from rfl, masked_digit, Nat.shiftRight_eq_div_pow, Word.family]
    dsimp only
    omega
  have x : (word.toNat &&& 0x0F00) >>> 8 = word.x.val := by
    rw [show 0x0F00 = 15 <<< 8 from rfl, masked_digit, Nat.shiftRight_eq_div_pow]
    rfl
  have y : (word.toNat &&& 0x00F0) >>> 4 = word.y.val := by
    rw [show 0x00F0 = 15 <<< 4 from rfl, masked_digit, Nat.shiftRight_eq_div_pow]
    rfl
  have last : word.toNat &&& 0x000F = word.lastDigit.val :=
    Nat.and_two_pow_sub_one_eq_mod word.toNat 4
  rw [cut, shiftRight_of_lt (by decide), ok_bind, shiftRight_of_lt (by decide), ok_bind,
    shiftRight_of_lt (by decide), ok_bind, family, x, y, last]
  rfl

def push (limit : Nat) (calls : Slots) (address : UInt16) : Except Trap (Except Fault Slots) := do
  if min limit 16 ≤ calls.live then
    return .error (.stackOverflow (← add calls.live 1))
  else
    let cells ← put calls.cells calls.live address
    return .ok ⟨cells, ← add calls.live 1⟩

def pop (calls : Slots) : Except Trap (Except Fault (UInt16 × Slots)) :=
  match calls.live with
  | 0 => return .error .stackUnderflow
  | below + 1 => do
      let address ← fetch calls.cells.toList below
      return .ok (address, ⟨calls.cells, below⟩)

theorem push_eq {calls : Slots} (proper : calls.live ≤ 16) (limit : Nat) (address : UInt16) :
    push limit calls address = .ok (CallStack.pushWithin limit calls address) := by
  have small : calls.live + 1 < numberBound := lt_numberBound (by omega)
  have depth : CallStack.depth calls = calls.live := rfl
  rcases Nat.lt_or_ge calls.live (min limit 16) with room | full
  · have free : calls.live < 16 := Nat.lt_of_lt_of_le room (Nat.min_le_right _ _)
    have pushed : calls.cells.set calls.live address =
        calls.cells.setIfInBounds calls.live address := by
      apply Vector.ext
      intro place inside
      rw [Vector.getElem_set, Vector.getElem_setIfInBounds]
    rw [push, if_neg (Nat.not_le.mpr room), CallStack.pushWithin, depth, if_pos room]
    simp [free, small, pushed, CallStack.push]
  · rw [push, if_pos full, CallStack.pushWithin, depth, if_neg (Nat.not_lt.mpr full)]
    simp [small]

theorem pop_eq {calls : Slots} (proper : calls.live ≤ 16) :
    pop calls = .ok (CallStack.pop calls) := by
  obtain ⟨cells, live⟩ := calls
  cases live with
  | zero => rfl
  | succ below =>
      have inside : below < 16 := proper
      simp [pop, inside, CallStack.pop, CallStack.pop?]

-- A count of more live addresses than there are cells traps.
example : pop ⟨Vector.replicate 16 0, 17⟩ = .error (.index 16 16) := rfl

variable (machine : Machine Slots)

def register (number : Nat) : Except Trap UInt8 :=
  fetch machine.registers.toList number

def setRegister (number : Nat) (value : UInt8) : Except Trap (Machine Slots) := do
  return { machine with registers := ← put machine.registers number value }

@[simp]
theorem register_eq (x : Register) : register machine x = .ok (machine.registers.get x) :=
  fetch_toList machine.registers x.isLt

@[simp]
theorem setRegister_eq (x : Register) (value : UInt8) :
    setRegister machine x value = .ok (machine.setRegister x value) := by
  simp [setRegister, Machine.setRegister]

@[simp]
theorem setFlag_eq (value : UInt8) :
    setRegister machine 15 value = .ok (machine.setRegister .flag value) :=
  setRegister_eq machine Register.flag value

/-- Goes on to the next instruction, or to the one after it. -/
def skipWhen (next : Nat) (condition : Bool) : Except Trap (Turn Slots Status) := do
  if condition then
    return .running (machine.goTo (← add next 2))
  else
    return .running (machine.goTo next)

theorem skipWhen_eq (small : machine.counter + 2 + 2 < numberBound) (condition : Bool) :
    skipWhen machine (machine.counter + 2) condition =
      .ok (.running (machine.skipWhen condition)) := by
  cases condition with
  | false => rfl
  | true =>
      simp [skipWhen, small, Machine.skipWhen, Machine.goTo, Machine.advance]

def apply (combination : Combination) (left right : UInt8) : Except Trap Combined :=
  match combination with
  | .shiftRight => do
      return ⟨UInt8.ofNat (← shiftRight 8 left.toNat 1), some (left &&& 1)⟩
  | .shiftLeft => do
      return ⟨UInt8.ofNat (← shiftLeft 8 left.toNat 1),
        some (UInt8.ofNat (← shiftRight 8 left.toNat 7))⟩
  | _ => return combination.apply left right

def combine (combination : Combination) (x y : Nat) : Except Trap (Machine Slots) := do
  let combined ← apply combination (← register machine x) (← register machine y)
  let written ← setRegister machine x combined.value
  match combined.flag? with
  | none => return written
  | some value => setRegister written 15 value

@[simp]
theorem apply_eq (combination : Combination) (left right : UInt8) :
    apply combination left right = .ok (combination.apply left right) := by
  have small := left.toNat_lt
  cases combination with
  | shiftRight =>
      have value : UInt8.ofNat (left.toNat >>> 1) = left / 2 := by
        apply UInt8.toNat_inj.mp
        rw [UInt8.toNat_ofNat', Nat.shiftRight_eq_div_pow, UInt8.toNat_div]
        simp
        omega
      have flag : left &&& 1 = left % 2 := by
        apply UInt8.toNat_inj.mp
        rw [UInt8.toNat_and, UInt8.toNat_one, Nat.and_one_is_mod]
        rfl
      simp [apply, value, flag, Combination.apply]
  | shiftLeft =>
      have value : UInt8.ofNat (left.toNat <<< 1) = left + left := by
        apply UInt8.toNat_inj.mp
        rw [UInt8.toNat_ofNat', Nat.shiftLeft_eq, UInt8.toNat_add]
        omega
      have flag : UInt8.ofNat (left.toNat >>> 7) = left / 128 := by
        apply UInt8.toNat_inj.mp
        rw [UInt8.toNat_ofNat', Nat.shiftRight_eq_div_pow, UInt8.toNat_div]
        simp
        omega
      simp [apply, value, flag, Combination.apply]
  | _ => rfl

@[simp]
theorem combine_eq (combination : Combination) (x y : Register) :
    combine machine combination x y = .ok (machine.combine combination x y) := by
  rw [combine, register_eq, ok_bind, register_eq, ok_bind, apply_eq, ok_bind, setRegister_eq,
    ok_bind, Machine.combine]
  cases (combination.apply machine.registers[x] machine.registers[y]).flag? with
  | none => rfl
  | some value => exact setFlag_eq _ value

/-! ## Spans of memory -/

/-- What sprites and registers are copied through. -/
def buffer : Vector UInt8 16 := Vector.replicate 16 0

def drawSprite (rows x y next : Nat) : Except Trap (Turn Slots Status) := do
  let room ← slice buffer.toList 0 rows
  match ← read machine.memory machine.index.toNat rows with
  | .error fault => return .refused fault machine
  | .ok bytes =>
      let filled := overwrite buffer 0 (← copy room bytes)
      let cleared ← setRegister machine 15 0
      let column ← register cleared x
      let row ← register cleared y
      let drawing ← draw cleared.screen (← slice filled.toList 0 rows) column row
      let drawn : Machine Slots := { cleared with screen := drawing.screen }
      let flagged ← setRegister drawn 15 (if drawing.collided then 1 else 0)
      return .running (flagged.goTo next)

def storeDecimal (x next : Nat) : Except Trap (Turn Slots Status) := do
  let value ← register machine x
  match ← read machine.memory machine.index.toNat 3 with
  | .error fault => return .refused fault machine
  | .ok bytes =>
      let bytes ← putItem bytes 0 (value / 100)
      let bytes ← putItem bytes 1 (value / 10 % 10)
      let bytes ← putItem bytes 2 (value % 10)
      let memory := overwrite machine.memory machine.index.toNat bytes
      return .running ({ machine with memory := memory }.goTo next)

def storeRegisters (x next : Nat) : Except Trap (Turn Slots Status) := do
  let _ ← register machine x
  let count ← add x 1
  match ← read machine.memory machine.index.toNat count with
  | .error fault => return .refused fault machine
  | .ok target =>
      let bytes ← copy target (← slice machine.registers.toList 0 count)
      let memory := overwrite machine.memory machine.index.toNat bytes
      return .running ({ machine with memory := memory }.goTo next)

def loadRegisters (x next : Nat) : Except Trap (Turn Slots Status) := do
  let _ ← register machine x
  let count ← add x 1
  let room ← slice buffer.toList 0 count
  match ← read machine.memory machine.index.toNat count with
  | .error fault => return .refused fault machine
  | .ok bytes =>
      let filled := overwrite buffer 0 (← copy room bytes)
      let target ← slice machine.registers.toList 0 count
      let block ← copy target (← slice filled.toList 0 count)
      let registers := overwrite machine.registers 0 block
      return .running ({ machine with registers := registers }.goTo next)

theorem span_lt (index : UInt16) {count : Nat} (short : count ≤ 16) :
    index.toNat + count < numberBound := by
  have := index.toNat_lt
  exact lt_numberBound (by omega)

theorem le_length_toList (cells : Vector UInt8 16) {count : Nat} (short : count ≤ 16) :
    count ≤ cells.toList.length := by
  rw [Vector.length_toList]
  exact short

theorem slice_filled (cells : Vector UInt8 16) {bytes : List UInt8} {count : Nat}
    (length : bytes.length = count) (short : count ≤ 16) :
    slice (overwrite cells 0 bytes).toList 0 count = .ok bytes := by
  rw [slice_zero (le_length_toList _ short), toList_overwrite _ _ _ (by omega), List.take_zero,
    List.nil_append, List.take_left' length]

theorem drawSprite_eq (x y : Register) (rows : Fin 16) :
    drawSprite machine rows x y (machine.counter + 2) = .ok (machine.execute (.draw x y rows)) := by
  have short : rows.val ≤ 16 := Nat.le_of_lt rows.isLt
  have room := le_length_toList buffer short
  have taken : (buffer.toList.take rows).length = rows.val := List.length_take_of_le room
  rw [drawSprite, slice_zero room, ok_bind, read_eq _ (span_lt _ short), ok_bind,
    Machine.execute]
  cases machine.memory.read machine.index.toNat rows with
  | error fault => rfl
  | ok sprite =>
      have length : sprite.toList.length = rows.val := sprite.length_toList
      have countable : sprite.toList.length ≤ longestSlice := by
        simp only [longestSlice]
        omega
      simp only [Except.map, ok_bind, copy_of_eq (taken.trans length.symm), setFlag_eq,
        register_eq, slice_filled _ length short, draw_eq _ countable]
      rfl

theorem storeDecimal_eq (x : Register) :
    storeDecimal machine x (machine.counter + 2) = .ok (machine.execute (.storeDecimal x)) := by
  rw [storeDecimal, register_eq, ok_bind, read_eq _ (span_lt _ (by decide)), ok_bind,
    Machine.execute]
  rcases Nat.lt_or_ge 0x1000 (machine.index.toNat + 3) with past | fits
  · rw [Memory.read_of_lt past, Machine.store_of_lt (by exact past)]
    rfl
  · rw [Memory.read_of_le fits, Machine.store_of_le (by exact fits)]
    rfl

theorem count_lt (x : Register) : x.val + 1 < numberBound :=
  lt_numberBound (by omega)

theorem storeRegisters_eq (x : Register) :
    storeRegisters machine x (machine.counter + 2) = .ok (machine.execute (.storeRegisters x)) := by
  have length := machine.length_registersThrough x
  rw [storeRegisters, register_eq, ok_bind, add_of_lt (count_lt x), ok_bind,
    read_eq _ (span_lt _ x.isLt), ok_bind, Machine.execute]
  rcases Nat.lt_or_ge 0x1000 (machine.index.toNat + (x.val + 1)) with past | fits
  · rw [Memory.read_of_lt past, Machine.store_of_lt (by rw [length]; exact past)]
    rfl
  · rw [Memory.read_of_le fits, Machine.store_of_le (by rw [length]; exact fits)]
    simp only [Except.map]
    rw [slice_zero (le_length_toList _ x.isLt), ok_bind,
      copy_of_eq (by rw [Vector.length_toList]; exact length.symm)]
    rfl

theorem loadRegisters_eq (x : Register) :
    loadRegisters machine x (machine.counter + 2) =
      .ok (machine.execute (.loadRegisters x)) := by
  have short : x.val + 1 ≤ 16 := x.isLt
  have taken (cells : Vector UInt8 16) : (cells.toList.take (x.val + 1)).length = x.val + 1 :=
    List.length_take_of_le (le_length_toList cells short)
  rw [loadRegisters, register_eq, ok_bind, add_of_lt (count_lt x), ok_bind,
    slice_zero (le_length_toList _ short), ok_bind, read_eq _ (span_lt _ short), ok_bind,
    Machine.execute]
  cases machine.memory.read machine.index.toNat (x + 1) with
  | error fault => rfl
  | ok bytes =>
      have length : bytes.toList.length = x.val + 1 := bytes.length_toList
      simp only [Except.map]
      rw [copy_of_eq ((taken _).trans length.symm), ok_bind,
        slice_zero (le_length_toList _ short), ok_bind, slice_filled _ length short, ok_bind,
        copy_of_eq ((taken _).trans length.symm)]
      rfl

/-! ## Carrying out -/

/-- The registers and rows are those of the digits. -/
def execute (digits : Digits) (instruction : Instruction) : Except Trap (Turn Slots Status) := do
  let next ← add machine.counter 2
  match instruction with
  | .machineRoutine address =>
      return (Turn.running (machine.goTo next)).after (.ignoredRoutine address)
  | .blank => return .running ({ machine with screen := Screen.blank }.goTo next)
  | .leave =>
      match ← pop machine.calls with
      | .error fault => return .refused fault machine
      | .ok (address, calls) =>
          return .running ({ machine with calls := calls }.goTo address.toNat)
  | .jump address => return .running (machine.goTo address)
  | .call address =>
      match ← push machine.config.stackLimit machine.calls (UInt16.ofNat next) with
      | .error fault => return .refused fault machine
      | .ok calls => return .running ({ machine with calls := calls }.goTo address)
  | .skipIfByte _ byte => skipWhen machine next ((← register machine digits.x) == byte)
  | .skipUnlessByte _ byte => skipWhen machine next ((← register machine digits.x) != byte)
  | .skipIfSame _ _ =>
      skipWhen machine next ((← register machine digits.x) == (← register machine digits.y))
  | .setByte _ byte => return .running ((← setRegister machine digits.x byte).goTo next)
  | .addByte _ byte =>
      let value ← register machine digits.x
      return .running ((← setRegister machine digits.x (value + byte)).goTo next)
  | .combine combination _ _ =>
      return .running ((← combine machine combination digits.x digits.y).goTo next)
  | .skipUnlessSame _ _ =>
      skipWhen machine next ((← register machine digits.x) != (← register machine digits.y))
  | .setIndex address => return .running ({ machine with index := UInt16.ofNat address }.goTo next)
  | .jumpFrom address =>
      return .running (machine.goTo (← add (← register machine 0).toNat address))
  | .random _ mask =>
      let drawn : Machine Slots := { machine with random := machine.random.next.2 }
      return .running
        ((← setRegister drawn digits.x (mask &&& machine.random.next.1)).goTo next)
  | .draw _ _ _ => drawSprite machine digits.last digits.x digits.y next
  | .skipIfHeld _ =>
      let target ← register machine digits.x
      skipWhen machine next (machine.held?.any fun key => key.toByte == target)
  | .skipUnlessHeld _ =>
      let target ← register machine digits.x
      skipWhen machine next !(machine.held?.any fun key => key.toByte == target)
  | .readDelay _ =>
      let _ ← register machine digits.x
      return .running ((← setRegister machine digits.x machine.delay).goTo next)
  | .awaitKey _ =>
      let _ ← register machine digits.x
      match machine.held? with
      | some key =>
          let released : Machine Slots := { machine with held? := none, waiting := false }
          return .running ((← setRegister released digits.x key.toByte).goTo next)
      | none =>
          let events := if machine.waiting then [] else [.awaitingKey machine.counter]
          return ⟨.ok .awaitingKey, { machine with waiting := true }, events⟩
  | .setDelay _ =>
      return .running ({ machine with delay := ← register machine digits.x }.goTo next)
  | .setSound _ =>
      return .running ({ machine with sound := ← register machine digits.x }.goTo next)
  | .addIndex _ =>
      let value ← register machine digits.x
      return .running ({ machine with index := machine.index + value.toUInt16 }.goTo next)
  | .storeDecimal _ => storeDecimal machine digits.x next
  | .storeRegisters _ => storeRegisters machine digits.x next
  | .loadRegisters _ => loadRegisters machine digits.x next

theorem execute_eq {word : Word} {instruction : Instruction} (denotes : word.Denotes instruction)
    (inside : machine.counter < 0xFFF) (proper : machine.calls.live ≤ 16) :
    execute machine (digitsOf word) instruction = .ok (machine.execute instruction) := by
  have next : machine.counter + 2 < numberBound := lt_numberBound (by omega)
  have far : machine.counter + 2 + 2 < numberBound := lt_numberBound (by omega)
  rw [execute, add_of_lt next, ok_bind]
  cases instruction with
  | machineRoutine | blank | jump | setIndex => rfl
  | leave =>
      dsimp only
      rw [pop_eq proper, ok_bind, Machine.execute]
      cases CallStack.pop machine.calls with
      | error fault => rfl
      | ok popped => rfl
  | call address =>
      dsimp only
      rw [push_eq proper, ok_bind, Machine.execute]
      cases CallStack.pushWithin machine.config.stackLimit machine.calls _ with
      | error fault => rfl
      | ok calls => rfl
  | skipIfByte x byte | skipUnlessByte x byte =>
      obtain ⟨_, rfl, _⟩ := denotes
      dsimp only [digitsOf]
      rw [register_eq, ok_bind, skipWhen_eq _ far]
      rfl
  | skipIfSame x y | skipUnlessSame x y =>
      obtain ⟨_, rfl, rfl⟩ := denotes
      dsimp only [digitsOf]
      rw [register_eq, ok_bind, register_eq, ok_bind, skipWhen_eq _ far]
      rfl
  | skipIfHeld x | skipUnlessHeld x =>
      obtain ⟨_, _, rfl⟩ := denotes
      dsimp only [digitsOf]
      rw [register_eq, ok_bind, skipWhen_eq _ far]
      rfl
  | setByte x byte =>
      obtain ⟨_, rfl, _⟩ := denotes
      dsimp only [digitsOf]
      rw [setRegister_eq]
      rfl
  | addByte x byte =>
      obtain ⟨_, rfl, _⟩ := denotes
      dsimp only [digitsOf]
      rw [register_eq, ok_bind, setRegister_eq]
      rfl
  | combine combination x y =>
      obtain ⟨_, _, rfl, rfl⟩ := denotes
      dsimp only [digitsOf]
      rw [combine_eq, ok_bind, Machine.execute]
      obtain ⟨registers, combined⟩ := machine.combine_eq_with_registers combination word.x word.y
      rw [combined]
      rfl
  | jumpFrom address =>
      have first : register machine 0 = .ok machine.registers[Register.first] :=
        register_eq machine Register.first
      have target : machine.registers[Register.first].toNat + address.val < numberBound := by
        have := machine.registers[Register.first].toNat_lt
        exact lt_numberBound (by omega)
      dsimp only
      rw [first, ok_bind, add_of_lt target]
      rfl
  | random x mask =>
      obtain ⟨_, rfl, _⟩ := denotes
      dsimp only [digitsOf]
      rw [setRegister_eq, ok_bind, Machine.execute, Machine.drawRandom_eq]
      rfl
  | draw x y rows =>
      obtain ⟨_, rfl, rfl, rfl⟩ := denotes
      exact drawSprite_eq machine word.x word.y word.lastDigit
  | readDelay x =>
      obtain ⟨_, _, rfl⟩ := denotes
      dsimp only [digitsOf]
      rw [register_eq, ok_bind, setRegister_eq]
      rfl
  | awaitKey x =>
      obtain ⟨_, _, rfl⟩ := denotes
      dsimp only [digitsOf]
      rw [register_eq, ok_bind, Machine.execute]
      cases machine.held? with
      | none => rfl
      | some key =>
          dsimp only
          rw [setRegister_eq]
          rfl
  | setDelay x | setSound x | addIndex x =>
      obtain ⟨_, _, rfl⟩ := denotes
      dsimp only [digitsOf]
      rw [register_eq]
      rfl
  | storeDecimal x =>
      obtain ⟨_, _, rfl⟩ := denotes
      exact storeDecimal_eq machine word.x
  | storeRegisters x =>
      obtain ⟨_, _, rfl⟩ := denotes
      exact storeRegisters_eq machine word.x
  | loadRegisters x =>
      obtain ⟨_, _, rfl⟩ := denotes
      exact loadRegisters_eq machine word.x

end Chip8.Checked
