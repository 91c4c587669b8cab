import Chip8.Arithmetic
import Chip8.Word

/-!
# Instructions

What a word can ask of the machine, in the order of the words' first digits. `machineRoutine`
called native code on the first machines and does nothing here.
-/

namespace Chip8

inductive Instruction where
  | machineRoutine (address : Address)
  | blank
  | leave
  | jump (address : Address)
  | call (address : Address)
  | skipIfByte (x : Register) (byte : UInt8)
  | skipUnlessByte (x : Register) (byte : UInt8)
  | skipIfSame (x y : Register)
  | setByte (x : Register) (byte : UInt8)
  | addByte (x : Register) (byte : UInt8)
  | combine (combination : Combination) (x y : Register)
  | skipUnlessSame (x y : Register)
  | setIndex (address : Address)
  | jumpFrom (address : Address)
  | random (x : Register) (mask : UInt8)
  | draw (x y : Register) (rows : Fin 16)
  | skipIfHeld (x : Register)
  | skipUnlessHeld (x : Register)
  | readDelay (x : Register)
  | awaitKey (x : Register)
  | setDelay (x : Register)
  | setSound (x : Register)
  | addIndex (x : Register)
  | storeDecimal (x : Register)
  | storeRegisters (x : Register)
  | loadRegisters (x : Register)
  deriving DecidableEq, Repr

end Chip8
