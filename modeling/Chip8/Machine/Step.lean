import Chip8.Instruction.Format
import Chip8.Machine.Basic

/-!
# One instruction

A step reads the word at the program counter, decodes it and carries it out. Most instructions
move the counter on by one word; a skip that applies moves it by two. A fault leaves the machine
at the instruction that caused it.
-/

namespace Chip8.Machine

variable {σ : Type} [CallStack σ]

def setRegister (machine : Machine σ) (x : Register) (value : UInt8) : Machine σ :=
  { machine with registers := machine.registers.set x value }

def advance (machine : Machine σ) : Machine σ :=
  { machine with counter := machine.counter + 2 }

def goTo (machine : Machine σ) (counter : Nat) : Machine σ :=
  { machine with counter := counter }

def skipWhen (machine : Machine σ) (condition : Bool) : Machine σ :=
  if condition then machine.advance.advance else machine.advance

/-- The flag is written last, so it stays when the result goes to the same register. -/
def combine (machine : Machine σ) (combination : Combination) (x y : Register) : Machine σ :=
  let combined := combination.apply machine.registers[x] machine.registers[y]
  let written := machine.setRegister x combined.value
  match combined.flag? with
  | none => written
  | some value => written.setRegister .flag value

/-- The flag is cleared first, so as a coordinate it counts as zero. -/
def drawSprite (machine : Machine σ) (sprite : Sprite) (x y : Register) : Machine σ :=
  let cleared := machine.setRegister .flag 0
  let drawing := cleared.screen.draw sprite cleared.registers[x].toNat cleared.registers[y].toNat
  { cleared with screen := drawing.screen }.setRegister .flag (if drawing.collided then 1 else 0)

def drawRandom (machine : Machine σ) (x : Register) (mask : UInt8) : Machine σ :=
  let (byte, random) := machine.random.next
  { machine with random := random }.setRegister x (mask &&& byte)

def holdsKeyOf (machine : Machine σ) (x : Register) : Bool :=
  machine.held?.any fun key => key.toByte == machine.registers[x]

/-- Hundreds, tens and units. -/
def decimalDigits (byte : UInt8) : List UInt8 :=
  [byte / 100, byte / 10 % 10, byte % 10]

/-- The first registers, up to and with `x`. -/
def registersThrough (machine : Machine σ) (x : Register) : List UInt8 :=
  machine.registers.toList.take (x + 1)

def store (machine : Machine σ) (bytes : List UInt8) : Turn σ Status :=
  match machine.memory.write machine.index.toNat bytes with
  | .error fault => .refused fault machine
  | .ok memory => .running { machine with memory := memory }.advance

/-- A refusal hands back the machine as it came. -/
def execute (machine : Machine σ) (instruction : Instruction) : Turn σ Status :=
  match instruction with
  | .machineRoutine address => (Turn.running machine.advance).after (.ignoredRoutine address)
  | .blank => .running { machine with screen := Screen.blank }.advance
  | .leave =>
      match CallStack.pop machine.calls with
      | .error fault => .refused fault machine
      | .ok (address, calls) => .running ({ machine with calls := calls }.goTo address.toNat)
  | .jump address => .running (machine.goTo address)
  | .call address =>
      let back := UInt16.ofNat (machine.counter + 2)
      match CallStack.pushWithin machine.config.stackLimit machine.calls back with
      | .error fault => .refused fault machine
      | .ok calls => .running ({ machine with calls := calls }.goTo address)
  | .skipIfByte x byte => .running (machine.skipWhen (machine.registers[x] == byte))
  | .skipUnlessByte x byte => .running (machine.skipWhen (machine.registers[x] != byte))
  | .skipIfSame x y => .running (machine.skipWhen (machine.registers[x] == machine.registers[y]))
  | .setByte x byte => .running (machine.setRegister x byte).advance
  | .addByte x byte => .running (machine.setRegister x (machine.registers[x] + byte)).advance
  | .combine combination x y => .running (machine.combine combination x y).advance
  | .skipUnlessSame x y =>
      .running (machine.skipWhen (machine.registers[x] != machine.registers[y]))
  | .setIndex address => .running { machine with index := UInt16.ofNat address }.advance
  | .jumpFrom address => .running (machine.goTo (machine.registers[Register.first].toNat + address))
  | .random x mask => .running (machine.drawRandom x mask).advance
  | .draw x y rows =>
      match machine.memory.read machine.index.toNat rows with
      | .error fault => .refused fault machine
      | .ok sprite => .running (machine.drawSprite sprite.toList x y).advance
  | .skipIfHeld x => .running (machine.skipWhen (machine.holdsKeyOf x))
  | .skipUnlessHeld x => .running (machine.skipWhen !machine.holdsKeyOf x)
  | .readDelay x => .running (machine.setRegister x machine.delay).advance
  | .awaitKey x =>
      match machine.held? with
      | some key =>
          let released := { machine with held? := none, waiting := false }
          .running (released.setRegister x key.toByte).advance
      | none =>
          let events := if machine.waiting then [] else [.awaitingKey machine.counter]
          ⟨.ok .awaitingKey, { machine with waiting := true }, events⟩
  | .setDelay x => .running { machine with delay := machine.registers[x] }.advance
  | .setSound x => .running { machine with sound := machine.registers[x] }.advance
  | .addIndex x =>
      let index := machine.index + machine.registers[x].toUInt16
      .running { machine with index := index }.advance
  | .storeDecimal x => machine.store (decimalDigits machine.registers[x])
  | .storeRegisters x => machine.store (machine.registersThrough x)
  | .loadRegisters x =>
      match machine.memory.read machine.index.toNat (x + 1) with
      | .error fault => .refused fault machine
      | .ok bytes =>
          let registers := overwrite machine.registers 0 bytes.toList
          .running { machine with registers := registers }.advance

/-- The instruction at the program counter. -/
def upcoming (machine : Machine σ) : Except Fault Instruction :=
  match machine.memory.wordAt machine.counter with
  | .error fault => .error fault
  | .ok word =>
      match Instruction.decode? word with
      | none => .error (.unsupportedOpcode word)
      | some instruction => .ok instruction

/-- An instruction is told once it is decoded, ahead of what it tells itself. -/
def step (machine : Machine σ) : Turn σ Status :=
  match machine.upcoming with
  | .error fault => .refused fault machine
  | .ok instruction =>
      (machine.execute instruction).after (.executing machine.counter instruction)

end Chip8.Machine
