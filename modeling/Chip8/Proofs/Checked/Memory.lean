import Mathlib.Control.Monad.Basic
import Chip8.Proofs.Checked.Operation
import Chip8.Proofs.Memory

/-!
# Checked memory

Spans of memory as slices, words put together and cut apart by shifts, the loop that lays a program
into memory, and the listing of the program area. A span is compared with the end of memory before
it is sliced, so one that does not fit is a fault and not a trap.
-/

namespace Chip8.Checked

def read (memory : Memory) (start count : Nat) : Except Trap (Except Fault (List UInt8)) := do
  if 0x1000 < (← add start count) then
    return .error (.outOfBounds (max start 0x1000))
  else
    return .ok (← slice memory.toList start (← add start count))

theorem read_eq (memory : Memory) {start count : Nat} (small : start + count < numberBound) :
    read memory start count = .ok ((memory.read start count).map Vector.toList) := by
  rcases Nat.lt_or_ge 0x1000 (start + count) with past | fits
  · simp [read, small, past, Except.map]
  · have inside : start + count ≤ memory.toList.length := by
      rw [Vector.length_toList]
      exact fits
    rw [memory.toList_read fits]
    simp [read, small, Nat.not_lt.mpr fits, slice_of_le (Nat.le_add_right start count) inside]

def toWord (high low : UInt8) : Except Trap Word := do
  return UInt16.ofNat ((← shiftLeft 16 high.toNat 8) ||| low.toNat)

@[simp]
theorem toWord_eq (high low : UInt8) : toWord high low = .ok (Word.ofBytes high low) := by
  have joined : high.toNat <<< 8 ||| low.toNat = high.toNat * 0x100 + low.toNat := by
    rw [← Nat.shiftLeft_add_eq_or_of_lt low.toNat_lt, Nat.shiftLeft_eq]
  rw [toWord, shiftLeft_of_lt (by decide), ok_bind, joined]
  rfl

/-- Chunks of two bytes; the last may have only one. -/
def pairs : List UInt8 → List (List UInt8)
  | high :: low :: rest => [high, low] :: pairs rest
  | [high] => [[high]]
  | [] => []

def words (image : Image) : Except Trap Program :=
  (pairs image).mapM fun pair => do
    toWord (← fetch pair 0) (pair[1]?.getD 0)

@[simp]
theorem words_eq (image : Image) : words image = .ok image.words := by
  fun_induction pairs image with
  | case1 high low rest ih =>
      rw [words, pairs, List.mapM_cons, ← words, ih]
      simp [fetch, Image.words]
  | case2 high =>
      simp [words, pairs, fetch, Image.words]
  | case3 => rfl

/-- Lays one word of a program into memory, by its number. -/
def layWord (memory : Memory) (numbered : Word × Nat) : Except Trap Memory := do
  let offset ← add Memory.programStart (← multiply numbered.2 2)
  let target ← slice memory.toList offset (← add offset 2)
  let bytes ← copy target [numbered.1.highByte, numbered.1.lowByte]
  return overwrite memory offset bytes

def lay (memory : Memory) (program : Program) : Except Trap Memory :=
  program.zipIdx.foldlM layWord memory

theorem layWord_eq (memory : Memory) {numbered : Word × Nat}
    (within : numbered.2 < Memory.programCapacity) :
    layWord memory numbered = .ok (overwrite memory (Memory.programStart + numbered.2 * 2)
      [numbered.1.highByte, numbered.1.lowByte]) := by
  simp only [Memory.programCapacity, Memory.programStart] at within ⊢
  have small : 512 + numbered.2 * 2 + 2 ≤ 0x1000 := by omega
  have double : numbered.2 * 2 < numberBound := lt_numberBound (by omega)
  have start : 512 + numbered.2 * 2 < numberBound := lt_numberBound (by omega)
  have stop : 512 + numbered.2 * 2 + 2 < numberBound := lt_numberBound (by omega)
  have inside : 512 + numbered.2 * 2 + 2 ≤ memory.toList.length := by
    rw [Vector.length_toList]
    exact small
  have same : ((memory.toList.take (512 + numbered.2 * 2 + 2)).drop
      (512 + numbered.2 * 2)).length = [numbered.1.highByte, numbered.1.lowByte].length := by
    rw [List.length_drop, List.length_take_of_le inside, List.length_cons, List.length_singleton]
    omega
  simp [layWord, Memory.programStart, double, start, stop,
    slice_of_le (Nat.le_add_right _ 2) inside, copy_of_eq same]

theorem overwrite_append {size : Nat} (cells : Vector UInt8 size) (start : Nat)
    (first second : List UInt8) :
    overwrite cells start (first ++ second) =
      overwrite (overwrite cells start first) (start + first.length) second := by
  induction first generalizing cells start with
  | nil => rfl
  | cons byte rest ih =>
      rw [List.cons_append, overwrite, ih, overwrite, List.length_cons, Nat.add_right_comm,
        ← Nat.add_assoc]

theorem foldl_overwrite (memory : Memory) (program : Program) (number : Nat) :
    (program.zipIdx number).foldl (fun memory numbered =>
        overwrite memory (Memory.programStart + numbered.2 * 2)
          [numbered.1.highByte, numbered.1.lowByte]) memory =
      overwrite memory (Memory.programStart + number * 2) program.image := by
  induction program generalizing memory number with
  | nil => rfl
  | cons word rest ih =>
      -- Where the first word ends the others begin, so the two are one longer overwrite.
      have next : Memory.programStart + (number + 1) * 2 =
          Memory.programStart + number * 2 + [word.highByte, word.lowByte].length := by
        rw [Nat.succ_mul, Nat.add_assoc]
        rfl
      rw [List.zipIdx_cons, List.foldl_cons, ih, next, ← overwrite_append]
      rfl

theorem lay_eq (memory : Memory) {program : Program}
    (fits : program.length ≤ Memory.programCapacity) :
    lay memory program = .ok (overwrite memory Memory.programStart program.image) := by
  have laid : ∀ numbered ∈ program.zipIdx, ∀ memory, layWord memory numbered =
      .ok (overwrite memory (Memory.programStart + numbered.2 * 2)
        [numbered.1.highByte, numbered.1.lowByte]) :=
    fun numbered listed memory =>
      layWord_eq memory (Nat.lt_of_lt_of_le (List.snd_lt_of_mem_zipIdx listed) fits)
  rw [lay, foldlM_eq_ok laid, foldl_overwrite]
  rfl

theorem length_pairs (bytes : List UInt8) : (pairs bytes).length = (bytes.length + 1) / 2 := by
  fun_induction pairs bytes with
  | case1 high low rest ih =>
      simp only [List.length_cons, ih]
      omega
  | case2 high => simp
  | case3 => rfl

theorem getElem?_pairs {bytes : List UInt8} {place : Nat} (inside : 2 * place + 1 < bytes.length) :
    (pairs bytes)[place]? = some [bytes[2 * place], bytes[2 * place + 1]] := by
  induction place generalizing bytes with
  | zero =>
      match bytes, inside with
      | high :: low :: rest, _ => rfl
  | succ place ih =>
      match bytes, inside with
      | high :: low :: rest, inside =>
          have further : 2 * place + 1 < rest.length := by
            simp only [List.length_cons] at inside
            omega
          have two : 2 * (place + 1) = 2 * place + 1 + 1 := by omega
          simp only [pairs, List.getElem?_cons_succ, ih further, two, List.getElem_cons_succ]

def listingLine (numbered : List UInt8 × Nat) : Except Trap String := do
  let address ← multiply numbered.2 2
  let word := Word.ofBytes (← fetch numbered.1 0) (← fetch numbered.1 1)
  return Hex.capitals 4 address ++ ": " ++ Hex.capitals 4 word.toNat ++ "\n"

def listing (memory : Memory) (count : Nat) : Except Trap String := do
  let area := (pairs memory.toList).zipIdx.drop (Memory.programStart / 2)
  let lines ← (area.take count).mapM listingLine
  return String.join lines

/-- The line of a word by its place from the start of memory. -/
def lineAt (memory : Memory) (place : Nat) : String :=
  let word := Word.ofBytes (memory[2 * place]?.getD 0) (memory[2 * place + 1]?.getD 0)
  Hex.capitals 4 (place * 2) ++ ": " ++ Hex.capitals 4 word.toNat ++ "\n"

theorem listingLine_eq {memory : Memory} {numbered : List UInt8 × Nat}
    (listed : numbered ∈ (pairs memory.toList).zipIdx) :
    listingLine numbered = .ok (lineAt memory numbered.2) := by
  obtain ⟨pair, place⟩ := numbered
  have within : place < 2048 := by
    have before := List.snd_lt_of_mem_zipIdx listed
    simpa [length_pairs] using before
  have double : place * 2 < numberBound := lt_numberBound (by omega)
  have inside : 2 * place + 1 < memory.toList.length := by
    rw [Vector.length_toList]
    omega
  have found := List.mem_zipIdx_iff_getElem?.mp listed
  rw [getElem?_pairs inside] at found
  cases found
  have high : memory[2 * place]? = some memory[2 * place] :=
    Vector.getElem?_eq_getElem (by omega)
  have low : memory[2 * place + 1]? = some memory[2 * place + 1] :=
    Vector.getElem?_eq_getElem (by omega)
  rw [listingLine, multiply_of_lt double, lineAt, high, low]
  rfl

theorem lineAt_eq (memory : Memory) (place : Fin Memory.programCapacity) :
    lineAt memory (Memory.programStart / 2 + place) = memory.line place := by
  have within : place.val < 1792 := place.isLt
  have address : (Memory.programStart / 2 + place.val) * 2 =
      Memory.programStart + 2 * place.val := by
    simp only [Memory.programStart]
    omega
  have start : Memory.programStart + 2 * place.val + 1 < 0x1000 := by
    simp only [Memory.programStart]
    omega
  rw [lineAt, Nat.mul_comm 2, address, Vector.getElem?_eq_getElem (Nat.lt_of_succ_lt start),
    Vector.getElem?_eq_getElem start]
  rfl

theorem listing_eq (memory : Memory) (count : Nat) :
    listing memory count = .ok (memory.listing count) := by
  have lines : ((pairs memory.toList).zipIdx.drop (Memory.programStart / 2)).map
      (fun numbered => lineAt memory numbered.2) =
        (List.finRange Memory.programCapacity).map memory.line := by
    apply List.ext_getElem
    · rw [List.length_map, List.length_drop, List.length_zipIdx, length_pairs,
        Vector.length_toList, List.length_map, List.length_finRange]
      rfl
    · intro place _ within
      rw [List.length_map, List.length_finRange] at within
      rw [List.getElem_map, List.getElem_drop, List.getElem_zipIdx, List.getElem_map,
        List.getElem_finRange, Nat.zero_add]
      exact lineAt_eq memory ⟨place, within⟩
  rw [listing, mapM_eq_ok fun numbered listed => listingLine_eq
    (List.mem_of_mem_drop (List.mem_of_mem_take listed)), ok_bind, List.map_take, lines,
    ← List.map_take]
  rfl

end Chip8.Checked
