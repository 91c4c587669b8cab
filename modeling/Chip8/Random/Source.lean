import Chip8.Random.ChaCha

/-!
# Random bytes

The keystream of a key is the list of all its blocks' words from block zero on, and a byte is the
low byte of a word. A source hands out the bytes in order: it computes a block when it needs one
and keeps the words not yet used.
-/

namespace Chip8.Random

/-- The byte at a place in the keystream; the block counter wraps after 2^64 blocks. -/
def byteAt (key : CipherKey) (place : Nat) : UInt8 :=
  (block key (UInt64.ofNat (place / 16)))[place % 16].toUInt8

structure Source where
  key : CipherKey
  nextBlock : UInt64
  unused : List UInt32
  deriving DecidableEq

namespace Source

def ofKey (key : CipherKey) : Source where
  key := key
  nextBlock := 0
  unused := []

def ofSeed (seed : UInt64) : Source :=
  ofKey (.ofSeed seed)

def next (source : Source) : UInt8 × Source :=
  match source.unused with
  | word :: rest => (word.toUInt8, { source with unused := rest })
  | [] =>
      let words := block source.key source.nextBlock
      (words[0].toUInt8, ⟨source.key, source.nextBlock + 1, words.toList.tail⟩)

end Source

end Chip8.Random
