import Chip8.Text.Hex

/-!
# The keypad

Sixteen keys, numbered by one hexadecimal digit. Which key of a keyboard stands for which number
is for the host to say.
-/

namespace Chip8

abbrev Key := Fin 16

structure UnknownKey where
  code : UInt8
  deriving DecidableEq, Repr

def UnknownKey.message (unknown : UnknownKey) : String :=
  "keycode must be in range 0 <= keycode < 16, got " ++ toString unknown.code.toNat

namespace Key

def count : Nat := 16

def ofByte (code : UInt8) : Except UnknownKey Key :=
  if known : code.toNat < 16 then .ok ⟨code.toNat, known⟩ else .error ⟨code⟩

def toByte (key : Key) : UInt8 :=
  UInt8.ofNat key

def name (key : Key) : String :=
  "k" ++ Hex.small key

@[simp]
theorem toNat_toByte (key : Key) : key.toByte.toNat = key.val := by
  have small := key.isLt
  simp only [toByte, UInt8.toNat_ofNat']
  omega

@[simp]
theorem ofByte_toByte (key : Key) : ofByte key.toByte = .ok key := by
  simp [ofByte]

end Key

end Chip8
