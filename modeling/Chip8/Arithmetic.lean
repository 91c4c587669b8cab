/-!
# Register arithmetic

The nine ways of combining two registers. The first four give a result only. The others also give
a flag: the carry of a sum, one when a difference does not go below zero, or the bit that a shift
drops. Shifts look at the left operand alone.
-/

namespace Chip8

inductive Combination where
  | copy
  | or
  | and
  | xor
  | add
  | subtract
  | shiftRight
  | subtractFrom
  | shiftLeft
  deriving DecidableEq, Repr

structure Combined where
  value : UInt8
  flag? : Option UInt8 := none
  deriving DecidableEq, Repr

def Combination.apply (combination : Combination) (left right : UInt8) : Combined :=
  match combination with
  | .copy => { value := right }
  | .or => { value := left ||| right }
  | .and => { value := left &&& right }
  | .xor => { value := left ^^^ right }
  | .add => ⟨left + right, some (if left.toNat + right.toNat < 256 then 0 else 1)⟩
  | .subtract => ⟨left - right, some (if right ≤ left then 1 else 0)⟩
  | .shiftRight => ⟨left / 2, some (left % 2)⟩
  | .subtractFrom => ⟨right - left, some (if left ≤ right then 1 else 0)⟩
  | .shiftLeft => ⟨left + left, some (left / 128)⟩

end Chip8
