import Chip8.Memory

/-!
# Programs in memory

A loaded program takes the bytes from `0x200` on, two a word with the high byte first, and all
other bytes are zero. A loaded image lies there byte for byte: the zero that completes an image of
odd length is one of the zeros that follow it.
-/

namespace Chip8

theorem Image.image_words (image : Image) :
    image.words.image = image ++ List.replicate (image.length % 2) 0 := by
  fun_induction Image.words image with
  | case1 high low rest ih =>
      have parity : (high :: low :: rest).length % 2 = rest.length % 2 := by
        simp only [List.length_cons]
        omega
      rw [parity, Program.image, List.flatMap_cons, Word.highByte_ofBytes, Word.lowByte_ofBytes]
      exact congrArg ([high, low] ++ ·) ih
  | case2 high => simp [Program.image]
  | case3 => rfl

theorem Image.getElem?_words (image : Image) (place : Nat) :
    image.words[place]? = image[2 * place]?.map fun high =>
      Word.ofBytes high (image[2 * place + 1]?.getD 0) := by
  fun_induction Image.words image generalizing place with
  | case1 high low rest ih =>
      cases place with
      | zero => rfl
      | succ place => exact ih place
  | case2 high =>
      cases place with
      | zero => rfl
      | succ place => rfl
  | case3 => rfl

theorem Program.getElem?_image (program : Program) (place : Nat) :
    program.image[2 * place]? = program[place]?.map Word.highByte ∧
      program.image[2 * place + 1]? = program[place]?.map Word.lowByte := by
  induction program generalizing place with
  | nil => exact ⟨rfl, rfl⟩
  | cons word rest ih =>
      cases place with
      | zero => exact ⟨rfl, rfl⟩
      | succ place => exact ih place

theorem getElem_overwrite_of_outside {size : Nat} (cells : Vector UInt8 size) {start : Nat}
    (bytes : List UInt8) {place : Nat} (inside : place < size)
    (outside : place < start ∨ start + bytes.length ≤ place) :
    (overwrite cells start bytes)[place] = cells[place] := by
  rw [getElem_overwrite]
  rcases outside with before | after
  · rw [if_neg (Nat.not_le.mpr before)]
  · rw [if_pos (by omega), List.getElem?_eq_none (by omega), Option.getD_none]

theorem getElem?_overwrite_of_outside {size : Nat} (cells : Vector UInt8 size) {start : Nat}
    (bytes : List UInt8) {place : Nat} (outside : place < start ∨ start + bytes.length ≤ place) :
    (overwrite cells start bytes)[place]? = cells[place]? := by
  rcases Nat.lt_or_ge place size with inside | beyond
  · rw [Vector.getElem?_eq_getElem inside, Vector.getElem?_eq_getElem inside,
      getElem_overwrite_of_outside cells bytes inside outside]
  · rw [Vector.getElem?_eq_none beyond, Vector.getElem?_eq_none beyond]

theorem getElem?_overwrite_of_inside {size : Nat} (cells : Vector UInt8 size) {start : Nat}
    {bytes : List UInt8} {offset : Nat} {byte : UInt8} (listed : bytes[offset]? = some byte)
    (fits : start + offset < size) :
    (overwrite cells start bytes)[start + offset]? = some byte := by
  rw [Vector.getElem?_eq_getElem fits, getElem_overwrite, if_pos (Nat.le_add_right start offset),
    Nat.add_sub_cancel_left, listed, Option.getD_some]

theorem toList_overwrite {size : Nat} (cells : Vector UInt8 size) (start : Nat)
    (bytes : List UInt8) (fits : start + bytes.length ≤ size) :
    (overwrite cells start bytes).toList =
      cells.toList.take start ++ bytes ++ cells.toList.drop (start + bytes.length) := by
  induction bytes generalizing cells start with
  | nil => simp [overwrite]
  | cons byte rest ih =>
      rw [List.length_cons] at fits
      have inside : start < cells.toList.length := by
        rw [Vector.length_toList]
        omega
      have before : (cells.toList.set start byte).take (start + 1) =
          cells.toList.take start ++ [byte] := by
        rw [List.take_add_one, List.take_set_of_le (Nat.le_refl start),
          List.getElem?_set_self inside]
        rfl
      have after : (cells.toList.set start byte).drop (start + 1 + rest.length) =
          cells.toList.drop (start + (rest.length + 1)) := by
        rw [List.drop_set_of_lt (by omega)]
        congr 1
        omega
      rw [overwrite, ih _ _ (by omega), Vector.toList_setIfInBounds, before, after]
      simp

namespace Memory

theorem toList_read (memory : Memory) {start count : Nat} (fits : start + count ≤ 0x1000) :
    (memory.read start count).map Vector.toList =
      .ok ((memory.toList.take (start + count)).drop start) := by
  rw [read_of_le fits, Except.map]
  apply congrArg Except.ok
  apply List.ext_getElem
  · simp
    omega
  · intro place inside _
    simp

theorem exists_read (memory : Memory) {start count : Nat} (fits : start + count ≤ 0x1000) :
    ∃ bytes, memory.read start count = .ok bytes ∧
      ∀ place < count, bytes.toList[place]? = memory[start + place]? := by
  have listed := memory.toList_read fits
  rw [read_of_le fits] at listed
  refine ⟨_, read_of_le fits, fun place within => ?_⟩
  rw [Except.ok.inj listed, List.getElem?_drop, List.getElem?_take_of_lt (by omega),
    Vector.getElem?_toList]

/-- The words lie from `0x200` on and the rest is blank. -/
structure Holds (memory : Memory) (program : Program) : Prop where
  highByte_eq : ∀ place word, program[place]? = some word →
    memory[512 + 2 * place]? = some word.highByte
  lowByte_eq : ∀ place word, program[place]? = some word →
    memory[513 + 2 * place]? = some word.lowByte
  zero_before : ∀ address, address < 512 → memory[address]? = some 0
  zero_after : ∀ address, 512 + 2 * program.length ≤ address → address < 4096 →
    memory[address]? = some 0

theorem toList_holding {program : Program} (fits : program.length ≤ 1792) :
    (holding program).toList =
      List.replicate 512 0 ++ program.image ++ List.replicate (3584 - 2 * program.length) 0 := by
  have bytes := program.length_image
  have inside : programStart + program.image.length ≤ 0x1000 := by
    simp only [programStart]
    omega
  have rest : 4096 - (programStart + program.image.length) = 3584 - 2 * program.length := by
    simp only [programStart, bytes]
    omega
  rw [holding, toList_overwrite _ _ _ inside, blank, Vector.toList_replicate, List.take_replicate,
    List.drop_replicate, rest]
  rfl

theorem getElem?_holding (program : Program) {address : Nat} (inside : address < 4096) :
    (holding program)[address]? =
      some (if 512 ≤ address then program.image[address - 512]?.getD 0 else 0) := by
  have dark : blank[address] = 0 := Vector.getElem_replicate inside
  rw [Vector.getElem?_eq_getElem inside, holding, getElem_overwrite, dark]
  rfl

theorem holds_holding {program : Program} (fits : program.length ≤ 1792) :
    (holding program).Holds program where
  highByte_eq place word listed := by
    have within := (List.getElem?_eq_some_iff.mp listed).1
    rw [getElem?_holding program (by omega), if_pos (by omega), Nat.add_sub_cancel_left,
      (program.getElem?_image place).1, listed]
    rfl
  lowByte_eq place word listed := by
    have within := (List.getElem?_eq_some_iff.mp listed).1
    have offset : 513 + 2 * place - 512 = 2 * place + 1 := by omega
    rw [getElem?_holding program (by omega), if_pos (by omega), offset,
      (program.getElem?_image place).2, listed]
    rfl
  zero_before address before := by
    rw [getElem?_holding program (by omega), if_neg (Nat.not_le.mpr before)]
  zero_after address after inside := by
    have past : program.image.length ≤ address - 512 := by
      rw [program.length_image]
      omega
    rw [getElem?_holding program inside, if_pos (by omega), List.getElem?_eq_none past]
    rfl

theorem toList_holding_words {image : Image} (fits : image.length ≤ 3584) :
    (holding image.words).toList =
      List.replicate 512 0 ++ image ++ List.replicate (3584 - image.length) 0 := by
  have words := image.length_words
  have padding : image.length % 2 + (3584 - 2 * image.words.length) = 3584 - image.length := by
    omega
  rw [toList_holding (by omega), image.image_words, ← padding, ← List.replicate_append_replicate]
  simp only [List.append_assoc]

end Memory

end Chip8
