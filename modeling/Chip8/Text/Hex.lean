/-!
# Hexadecimal text

Addresses and words are written with capital digits and padded with zeros to a least width, so a
number that needs more digits is written in full. Registers and keys are named by one small digit.
-/

namespace Chip8.Hex

def capitals (width number : Nat) : String :=
  String.ofList (((Nat.toDigits 16 number).map Char.toUpper).leftpad width '0')

def small (digit : Fin 16) : String :=
  String.singleton (Nat.digitChar digit)

end Chip8.Hex
