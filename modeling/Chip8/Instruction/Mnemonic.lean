import Chip8.Instruction.Basic
import Chip8.Text.Hex

/-!
# Mnemonics

An instruction is written as a name and its operands. Registers are `v` and a small digit,
addresses three capital digits after `0x`, numbers decimal. Shifts do not name their second
register, which they ignore.
-/

namespace Chip8

inductive Operand where
  | register (name : Register)
  | number (value : Nat)
  | address (target : Address)
  | index
  | atIndex
  | delay
  | sound
  | key
  | decimal
  deriving DecidableEq, Repr

namespace Operand

def text : Operand → String
  | .register name => "v" ++ Hex.small name
  | .number value => toString value
  | .address target => "0x" ++ Hex.capitals 3 target
  | .index => "I"
  | .atIndex => "[I]"
  | .delay => "DT"
  | .sound => "ST"
  | .key => "K"
  | .decimal => "B"

/-- A blank before each operand and a comma between two. -/
def listText : List Operand → String
  | [] => ""
  | [operand] => " " ++ operand.text
  | operand :: rest => " " ++ operand.text ++ "," ++ listText rest

end Operand

structure Assembly where
  name : String
  operands : List Operand
  deriving DecidableEq, Repr

def Assembly.text (assembly : Assembly) : String :=
  assembly.name ++ Operand.listText assembly.operands

namespace Combination

def name : Combination → String
  | .copy => "LD"
  | .or => "OR"
  | .and => "AND"
  | .xor => "XOR"
  | .add => "ADD"
  | .subtract => "SUB"
  | .shiftRight => "SHR"
  | .subtractFrom => "SUBN"
  | .shiftLeft => "SHL"

def isShift : Combination → Bool
  | .shiftRight | .shiftLeft => true
  | _ => false

end Combination

namespace Instruction

def assembly : Instruction → Assembly
  | .machineRoutine address => ⟨"SYS", [.address address]⟩
  | .blank => ⟨"CLS", []⟩
  | .leave => ⟨"RET", []⟩
  | .jump address => ⟨"JP", [.address address]⟩
  | .call address => ⟨"CALL", [.address address]⟩
  | .skipIfByte x byte => ⟨"SE", [.register x, .number byte.toNat]⟩
  | .skipUnlessByte x byte => ⟨"SNE", [.register x, .number byte.toNat]⟩
  | .skipIfSame x y => ⟨"SE", [.register x, .register y]⟩
  | .setByte x byte => ⟨"LD", [.register x, .number byte.toNat]⟩
  | .addByte x byte => ⟨"ADD", [.register x, .number byte.toNat]⟩
  | .combine combination x y =>
      ⟨combination.name, .register x :: if combination.isShift then [] else [.register y]⟩
  | .skipUnlessSame x y => ⟨"SNE", [.register x, .register y]⟩
  | .setIndex address => ⟨"LD", [.index, .address address]⟩
  | .jumpFrom address => ⟨"JP", [.register .first, .address address]⟩
  | .random x mask => ⟨"RND", [.register x, .number mask.toNat]⟩
  | .draw x y rows => ⟨"DRW", [.register x, .register y, .number rows]⟩
  | .skipIfHeld x => ⟨"SKP", [.register x]⟩
  | .skipUnlessHeld x => ⟨"SKNP", [.register x]⟩
  | .readDelay x => ⟨"LD", [.register x, .delay]⟩
  | .awaitKey x => ⟨"LD", [.register x, .key]⟩
  | .setDelay x => ⟨"LD", [.delay, .register x]⟩
  | .setSound x => ⟨"LD", [.sound, .register x]⟩
  | .addIndex x => ⟨"ADD", [.index, .register x]⟩
  | .storeDecimal x => ⟨"LD", [.decimal, .register x]⟩
  | .storeRegisters x => ⟨"LD", [.atIndex, .register x]⟩
  | .loadRegisters x => ⟨"LD", [.register x, .atIndex]⟩

def mnemonic (instruction : Instruction) : String :=
  instruction.assembly.text

end Instruction

end Chip8
