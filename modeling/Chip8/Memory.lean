import Chip8.Fault

/-!
# Memory

4096 bytes. A span is read or written as a whole or not at all: one that does not fit is refused
with the first of its addresses that lies past the end.
-/

namespace Chip8

/-- Replaces the cells from `start` on; what would fall past the end is dropped. -/
def overwrite {size : Nat} (cells : Vector UInt8 size) (start : Nat) :
    List UInt8 → Vector UInt8 size
  | [] => cells
  | byte :: rest => overwrite (cells.setIfInBounds start byte) (start + 1) rest

theorem getElem_overwrite {size : Nat} (cells : Vector UInt8 size) (start : Nat)
    (bytes : List UInt8) (place : Nat) (inside : place < size) :
    (overwrite cells start bytes)[place] =
      if start ≤ place then bytes[place - start]?.getD cells[place] else cells[place] := by
  induction bytes generalizing cells start with
  | nil => simp [overwrite]
  | cons byte rest ih =>
      rw [overwrite, ih]
      rcases Nat.lt_trichotomy place start with before | rfl | after
      · have here : ¬ start = place := by omega
        simp [here, Nat.not_le.mpr before, Nat.not_le.mpr (Nat.lt_succ_of_lt before)]
      · have beyond : ¬ place + 1 ≤ place := by omega
        simp [beyond]
      · obtain ⟨offset, rfl⟩ := Nat.exists_eq_add_of_lt after
        have here : ¬ start = start + offset + 1 := by omega
        have gap : start + offset + 1 - start = offset + 1 := by omega
        have rest_gap : start + offset + 1 - (start + 1) = offset := by omega
        have reached : start + 1 ≤ start + offset + 1 := by omega
        have passed : start ≤ start + offset + 1 := by omega
        simp [here, gap, rest_gap, reached, passed]

abbrev Memory := Vector UInt8 0x1000

namespace Memory

/-- Programs start here; the bytes below are left blank. -/
def programStart : Nat := 0x200

/-- Words from `programStart` to the end of memory. -/
def programCapacity : Nat := (0x1000 - programStart) / 2

def blank : Memory := Vector.replicate 0x1000 0

def read (memory : Memory) (start count : Nat) : Except Fault (Vector UInt8 count) :=
  if fits : start + count ≤ 0x1000 then
    .ok (Vector.ofFn fun place : Fin count => memory[start + place.val])
  else
    .error (.outOfBounds (max start 0x1000))

@[simp]
theorem read_of_le {memory : Memory} {start count : Nat} (fits : start + count ≤ 0x1000) :
    memory.read start count =
      .ok (Vector.ofFn fun place : Fin count => memory[start + place.val]) := by
  simp [read, fits]

@[simp]
theorem read_of_lt {memory : Memory} {start count : Nat} (past : 0x1000 < start + count) :
    memory.read start count = .error (.outOfBounds (max start 0x1000)) := by
  simp [read, Nat.not_le.mpr past]

def write (memory : Memory) (start : Nat) (bytes : List UInt8) : Except Fault Memory :=
  if start + bytes.length ≤ 0x1000 then
    .ok (overwrite memory start bytes)
  else
    .error (.outOfBounds (max start 0x1000))

@[simp]
theorem write_of_le {memory : Memory} {start : Nat} {bytes : List UInt8}
    (fits : start + bytes.length ≤ 0x1000) :
    memory.write start bytes = .ok (overwrite memory start bytes) := by
  simp [write, fits]

@[simp]
theorem write_of_lt {memory : Memory} {start : Nat} {bytes : List UInt8}
    (past : 0x1000 < start + bytes.length) :
    memory.write start bytes = .error (.outOfBounds (max start 0x1000)) := by
  simp [write, Nat.not_le.mpr past]

/-- A blank memory with the program's image at `programStart`. -/
def holding (program : Program) : Memory :=
  overwrite blank programStart program.image

def wordAt (memory : Memory) (start : Nat) : Except Fault Word :=
  (memory.read start 2).map fun bytes => Word.ofBytes bytes[0] bytes[1]

/-- The address of the word at `place` in the program area, and the word. -/
def line (memory : Memory) (place : Fin programCapacity) : String :=
  have inside : programStart + 2 * place.val + 1 < 0x1000 := by
    have := place.isLt
    simp only [programStart, programCapacity] at *
    omega
  let start := programStart + 2 * place.val
  let word := Word.ofBytes memory[start] memory[start + 1]
  Hex.capitals 4 start ++ ": " ++ Hex.capitals 4 word.toNat ++ "\n"

/-- The first `count` words of the program area, or all of them if there are fewer. -/
def listing (memory : Memory) (count : Nat) : String :=
  String.join (((List.finRange programCapacity).take count).map memory.line)

end Memory

end Chip8
