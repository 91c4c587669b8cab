/-!
# Numerals

A numeral is decimal, may start with one plus sign, and stays below 2^64. It is read from the left
and the first defect is the one reported: at each character, whether it is a digit comes before
whether the number has grown too large.
-/

namespace Chip8.Numeral

inductive Defect where
  | empty
  | invalidDigit
  | tooLarge
  deriving DecidableEq, Repr

def Defect.message : Defect → String
  | .empty => "cannot parse integer from empty string"
  | .invalidDigit => "invalid digit found in string"
  | .tooLarge => "number too large to fit in target type"

def bound : Nat := 0x10000000000000000

def digitValue (digit : Char) : Nat :=
  digit.toNat - '0'.toNat

/-- Reads on after digits of the given value. -/
def readDigits (value : Nat) : List Char → Except Defect Nat
  | [] => .ok value
  | character :: rest =>
      if character.isDigit then
        let extended := value * 10 + digitValue character
        if extended < bound then readDigits extended rest else .error .tooLarge
      else
        .error .invalidDigit

def readCharacters : List Char → Except Defect Nat
  | [] => .error .empty
  | ['+'] => .error .invalidDigit
  | '+' :: digits => readDigits 0 digits
  | digits => readDigits 0 digits

def read (text : String) : Except Defect Nat :=
  readCharacters text.toList

end Chip8.Numeral
