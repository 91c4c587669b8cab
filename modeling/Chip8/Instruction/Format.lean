import Chip8.Instruction.Basic

/-!
# The instruction format

The first digit of a word names its family. Families 0 to 7, 9 and A to D hold one instruction
each, apart from two words of family 0 that stand for instructions of their own; the last digit
selects within family 8, the low byte within E and F. Families 5 and 9 ignore the last digit. A
word that selects nothing decodes to `none`.
-/

namespace Chip8

def Combination.ofDigit? (digit : Fin 16) : Option Combination :=
  match digit with
  | 0x0 => some .copy
  | 0x1 => some .or
  | 0x2 => some .and
  | 0x3 => some .xor
  | 0x4 => some .add
  | 0x5 => some .subtract
  | 0x6 => some .shiftRight
  | 0x7 => some .subtractFrom
  | 0xE => some .shiftLeft
  | _ => none

namespace Instruction

def ofKeypadSelector? (x : Register) (selector : UInt8) : Option Instruction :=
  match selector with
  | 0x9E => some (.skipIfHeld x)
  | 0xA1 => some (.skipUnlessHeld x)
  | _ => none

def ofDeviceSelector? (x : Register) (selector : UInt8) : Option Instruction :=
  match selector with
  | 0x07 => some (.readDelay x)
  | 0x0A => some (.awaitKey x)
  | 0x15 => some (.setDelay x)
  | 0x18 => some (.setSound x)
  | 0x1E => some (.addIndex x)
  | 0x33 => some (.storeDecimal x)
  | 0x55 => some (.storeRegisters x)
  | 0x65 => some (.loadRegisters x)
  | _ => none

def ofAddress (address : Address) : Instruction :=
  if address.val = 0x0E0 then .blank
  else if address.val = 0x0EE then .leave
  else .machineRoutine address

def decode? (word : Word) : Option Instruction :=
  match word.family with
  | 0x0 => some (.ofAddress word.address)
  | 0x1 => some (.jump word.address)
  | 0x2 => some (.call word.address)
  | 0x3 => some (.skipIfByte word.x word.lowByte)
  | 0x4 => some (.skipUnlessByte word.x word.lowByte)
  | 0x5 => some (.skipIfSame word.x word.y)
  | 0x6 => some (.setByte word.x word.lowByte)
  | 0x7 => some (.addByte word.x word.lowByte)
  | 0x8 => (Combination.ofDigit? word.lastDigit).map fun combination =>
      .combine combination word.x word.y
  | 0x9 => some (.skipUnlessSame word.x word.y)
  | 0xA => some (.setIndex word.address)
  | 0xB => some (.jumpFrom word.address)
  | 0xC => some (.random word.x word.lowByte)
  | 0xD => some (.draw word.x word.y word.lastDigit)
  | 0xE => ofKeypadSelector? word.x word.lowByte
  | _ => ofDeviceSelector? word.x word.lowByte

end Instruction

def Combination.digit : Combination → Nat
  | .copy => 0x0
  | .or => 0x1
  | .and => 0x2
  | .xor => 0x3
  | .add => 0x4
  | .subtract => 0x5
  | .shiftRight => 0x6
  | .subtractFrom => 0x7
  | .shiftLeft => 0xE

namespace Word

def ofFamilyAddress (family : Nat) (address : Address) : Word :=
  UInt16.ofNat (family * 0x1000 + address.val)

def ofFamilyByte (family : Nat) (x : Register) (byte : UInt8) : Word :=
  UInt16.ofNat (family * 0x1000 + x.val * 0x100 + byte.toNat)

def ofDigits (family : Nat) (x y : Register) (last : Nat) : Word :=
  UInt16.ofNat (family * 0x1000 + x.val * 0x100 + y.val * 0x10 + last)

end Word

namespace Instruction

def encode : Instruction → Word
  | .machineRoutine address => .ofFamilyAddress 0x0 address
  | .blank => 0x00E0
  | .leave => 0x00EE
  | .jump address => .ofFamilyAddress 0x1 address
  | .call address => .ofFamilyAddress 0x2 address
  | .skipIfByte x byte => .ofFamilyByte 0x3 x byte
  | .skipUnlessByte x byte => .ofFamilyByte 0x4 x byte
  | .skipIfSame x y => .ofDigits 0x5 x y 0
  | .setByte x byte => .ofFamilyByte 0x6 x byte
  | .addByte x byte => .ofFamilyByte 0x7 x byte
  | .combine combination x y => .ofDigits 0x8 x y combination.digit
  | .skipUnlessSame x y => .ofDigits 0x9 x y 0
  | .setIndex address => .ofFamilyAddress 0xA address
  | .jumpFrom address => .ofFamilyAddress 0xB address
  | .random x mask => .ofFamilyByte 0xC x mask
  | .draw x y rows => .ofDigits 0xD x y rows
  | .skipIfHeld x => .ofFamilyByte 0xE x 0x9E
  | .skipUnlessHeld x => .ofFamilyByte 0xE x 0xA1
  | .readDelay x => .ofFamilyByte 0xF x 0x07
  | .awaitKey x => .ofFamilyByte 0xF x 0x0A
  | .setDelay x => .ofFamilyByte 0xF x 0x15
  | .setSound x => .ofFamilyByte 0xF x 0x18
  | .addIndex x => .ofFamilyByte 0xF x 0x1E
  | .storeDecimal x => .ofFamilyByte 0xF x 0x33
  | .storeRegisters x => .ofFamilyByte 0xF x 0x55
  | .loadRegisters x => .ofFamilyByte 0xF x 0x65

/-- An instruction that some word decodes to: the two words of `blank` and `leave` are not
machine routines. -/
def WellFormed : Instruction → Prop
  | .machineRoutine address => address.val ≠ 0x0E0 ∧ address.val ≠ 0x0EE
  | _ => True

end Instruction

end Chip8
