import Chip8.Text.Hex
import Chip8.Word

/-!
# Faults

Why the machine refuses a program, a configuration or an instruction, and how each refusal is
worded.
-/

namespace Chip8

inductive Fault where
  | programTooLarge (words : Nat)
  | outOfBounds (address : Nat)
  | stackUnderflow
  | stackOverflow (depth : Nat)
  | unsupportedOpcode (word : Word)
  | stackLimitOutOfRange
  deriving DecidableEq, Repr

def Fault.message : Fault → String
  | .programTooLarge words => "program of " ++ toString words ++ " words too large for VM memory"
  | .outOfBounds address => "memory access out of bounds at 0x" ++ Hex.capitals 4 address
  | .stackUnderflow => "call stack underflow"
  | .stackOverflow depth => "call stack overflow at depth " ++ toString depth
  | .unsupportedOpcode word => "unsupported opcode 0x" ++ Hex.capitals 4 word.toNat
  | .stackLimitOutOfRange => "invalid configuration: stack limit must be between 1 and 16"

end Chip8
