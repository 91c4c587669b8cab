/-!
# The ChaCha block function

Sixteen 32-bit words: four constants, eight key words, a 64-bit block counter with its low word
first, and two zeros. A block is the state after six double rounds, added word by word to the
state before them. A key of eight words is stretched from a 64-bit seed by a linear congruence
whose states are each folded into one word.
-/

namespace Chip8.Random

abbrev State := Vector UInt32 16

abbrev CipherKey := Vector UInt32 8

def rotateLeft (word : UInt32) (amount : Fin 32) : UInt32 :=
  UInt32.ofBitVec (word.toBitVec.rotateLeft amount)

def rotateRight (word : UInt32) (amount : Fin 32) : UInt32 :=
  UInt32.ofBitVec (word.toBitVec.rotateRight amount)

namespace State

/-- Adds one word to a second and stirs the sum into a third. -/
def stir (state : State) (first second third : Fin 16) (amount : Fin 32) : State :=
  let summed := state.set first (state[first] + state[second])
  summed.set third (rotateLeft (summed[third] ^^^ summed[first]) amount)

def quarterRound (state : State) (a b c d : Fin 16) : State :=
  (((state.stir a b d 16).stir c d b 12).stir a b d 8).stir c d b 7

def doubleRound (state : State) : State :=
  let columns := (((state.quarterRound 0 4 8 12).quarterRound 1 5 9 13).quarterRound
    2 6 10 14).quarterRound 3 7 11 15
  (((columns.quarterRound 0 5 10 15).quarterRound 1 6 11 12).quarterRound
    2 7 8 13).quarterRound 3 4 9 14

def start (key : CipherKey) (counter : UInt64) : State :=
  (#v[0x61707865, 0x3320646E, 0x79622D32, 0x6B206574] : Vector UInt32 4) ++ key ++
    (#v[counter.toUInt32, (counter >>> 32).toUInt32, 0, 0] : Vector UInt32 4)

end State

def block (key : CipherKey) (counter : UInt64) : State :=
  let start := State.start key counter
  Vector.zipWith (· + ·) start (Nat.repeat State.doubleRound 6 start)

def advance (seed : UInt64) : UInt64 :=
  seed * 6364136223846793005 + 11634580027462260723

def condense (seed : UInt64) : UInt32 :=
  let folded := (((seed >>> 18) ^^^ seed) >>> 27).toUInt32
  rotateRight folded (Fin.ofNat 32 (seed >>> 59).toNat)

def CipherKey.ofSeed (seed : UInt64) : CipherKey :=
  Vector.ofFn fun place : Fin 8 => condense (Nat.repeat advance (place + 1) seed)

end Chip8.Random
