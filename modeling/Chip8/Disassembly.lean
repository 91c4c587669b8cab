import Chip8.Instruction.Format
import Chip8.Instruction.Mnemonic
import Chip8.Memory

/-!
# Disassembly

A line for each word of an image: the address where loading would put it, the word, and its
mnemonic. A word that is no instruction, such as a part of a sprite, is repeated instead.
-/

namespace Chip8

structure DisassemblyLine where
  address : Nat
  word : Word
  deriving DecidableEq, Repr

def DisassemblyLine.text (line : DisassemblyLine) : String :=
  let word := Hex.capitals 4 line.word.toNat
  let meaning :=
    match Instruction.decode? line.word with
    | some instruction => instruction.mnemonic
    | none => "0x" ++ word
  "0x" ++ Hex.capitals 4 line.address ++ " " ++ word ++ "  " ++ meaning

def Image.disassembly (image : Image) : List DisassemblyLine :=
  image.words.mapIdx fun place word => ⟨Memory.programStart + 2 * place, word⟩

end Chip8
