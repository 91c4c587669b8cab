import Chip8.Proofs.Drawing.Dots
import Chip8.Proofs.Machine.Footprint
import Chip8.Proofs.Memory

/-!
# The step that draws

A step that draws takes its sprite from memory at the index and its place from two registers, of
which the flag counts as zero. It changes the screen by the bits of the sprite, sets the flag when
it erases a dot, and goes on to the next word.
-/

namespace Chip8

namespace Machine

variable {σ : Type}

/-- What a register says of where to draw. -/
def coordinate (machine : Machine σ) (x : Register) : Nat :=
  if x.val = 0xF then 0 else (machine.registers.get x).toNat

/-- The bytes of memory from the index on. -/
def spriteAtIndex (machine : Machine σ) (rows : Nat) : Sprite :=
  (machine.memory.toList.take (machine.index.toNat + rows)).drop machine.index.toNat

theorem length_spriteAtIndex_le (machine : Machine σ) (rows : Fin 16) :
    (machine.spriteAtIndex rows).length ≤ 32 := by
  rw [spriteAtIndex, List.length_drop, List.length_take]
  omega

theorem toNat_register_cleared (machine : Machine σ) (x : Register) :
    ((machine.setRegister .flag 0).registers.get x).toNat = machine.coordinate x := by
  unfold coordinate
  split
  · next flag =>
    obtain rfl : x = Register.flag := Fin.ext flag
    exact congrArg UInt8.toNat (Vector.getElem_set_self _)
  · next other => rw [register_setFlag machine other]

theorem drawSprite_eq (machine : Machine σ) (sprite : Sprite) (x y : Register) :
    let drawing := machine.screen.draw sprite (machine.coordinate x) (machine.coordinate y)
    machine.drawSprite sprite x y = { machine with
      screen := drawing.screen
      registers := machine.registers.set Register.flag (if drawing.collided then 1 else 0) } := by
  simp only [← toNat_register_cleared, drawSprite, setRegister, Vector.set_set]
  rfl

theorem dot_drawSprite (machine : Machine σ) (sprite : Sprite) (x y : Register)
    (column row : Nat) :
    (machine.drawSprite sprite x y).screen.dot column row =
      (machine.screen.draw sprite (machine.coordinate x) (machine.coordinate y)).screen.dot
        column row := by
  rw [drawSprite_eq]

theorem flag_drawSprite (machine : Machine σ) (sprite : Sprite) (x y : Register) :
    (machine.drawSprite sprite x y).registers.get Register.flag =
      if (machine.screen.draw sprite (machine.coordinate x) (machine.coordinate y)).collided
        then 1 else 0 := by
  rw [drawSprite_eq]
  exact Vector.getElem_set_self _

theorem flag_drawSprite_of_short (machine : Machine σ) {sprite : Sprite}
    (short : sprite.length ≤ 32) (x y : Register) :
    let drawn := machine.drawSprite sprite x y
    let erases := ∃ column row,
      machine.screen.dot column row = 1 ∧ drawn.screen.dot column row = 0
    (drawn.registers.get Register.flag = 1 ↔ erases) ∧
      (drawn.registers.get Register.flag = 0 ↔ ¬ erases) := by
  simp only [flag_drawSprite, dot_drawSprite, ← Screen.collided_draw_iff_erased _ short]
  cases (machine.screen.draw sprite (machine.coordinate x) (machine.coordinate y)).collided with
  | true => decide
  | false => decide

/-- What drawing the bytes at the index leaves of a machine: new dots, a new flag, the next word,
and all else as it was. -/
structure Draws (machine : Machine σ) (x y : Register) (rows : Nat) (after : Machine σ) :
    Prop where
  machine_eq : after = { machine with
    counter := machine.counter + 2
    screen := after.screen
    registers := machine.registers.set Register.flag (after.registers.get Register.flag) }
  dot_of_landing : ∀ column row, ∀ cell ∈ (machine.spriteAtIndex rows).landing
      (machine.coordinate x % 64) (machine.coordinate y % 32) column row,
    after.screen.dot column row = machine.screen.dot column row ^^^
      if (machine.spriteAtIndex rows).bit cell.1 cell.2 then 1 else 0
  dot_of_missed : ∀ column row, (machine.spriteAtIndex rows).landing
      (machine.coordinate x % 64) (machine.coordinate y % 32) column row = ∅ →
    after.screen.dot column row = machine.screen.dot column row
  card_landing_le : ∀ column row, ((machine.spriteAtIndex rows).landing
    (machine.coordinate x % 64) (machine.coordinate y % 32) column row).card ≤ 1
  flag_eq_one_iff : after.registers.get Register.flag = 1 ↔
    ∃ column row, machine.screen.dot column row = 1 ∧ after.screen.dot column row = 0
  flag_eq_zero_iff : after.registers.get Register.flag = 0 ↔
    ¬ ∃ column row, machine.screen.dot column row = 1 ∧ after.screen.dot column row = 0

theorem draws_drawSprite (machine : Machine σ) (x y : Register) (rows : Fin 16) :
    machine.Draws x y rows (machine.drawSprite (machine.spriteAtIndex rows) x y).advance := by
  have short := machine.length_spriteAtIndex_le rows
  have flag := machine.flag_drawSprite_of_short short x y
  constructor
  · simp only [advance, flag_drawSprite]
    rw [drawSprite_eq]
  · intro column row cell landed
    rw [Sprite.landing_mod] at landed
    exact (machine.dot_drawSprite _ x y column row).trans
      (Screen.dot_draw_of_mem short landed)
  · intro column row missed
    rw [Sprite.landing_mod] at missed
    exact (machine.dot_drawSprite _ x y column row).trans
      (Screen.dot_draw_of_missed missed)
  · exact Sprite.card_landing_le short _ _
  · exact flag.1
  · exact flag.2

variable [CallStack σ]

theorem execute_draw {machine : Machine σ} (x y : Register) {rows : Fin 16}
    (fits : machine.index.toNat + rows ≤ 0x1000) :
    machine.execute (.draw x y rows) =
      .running (machine.drawSprite (machine.spriteAtIndex rows) x y).advance := by
  have bytes := machine.memory.toList_read fits
  rw [Memory.read_of_le fits] at bytes
  rw [spriteAtIndex, ← Except.ok.inj bytes]
  simp [execute, fits]

/-- A word of family D at the program counter draws, in any machine, as long as its sprite lies in
memory. -/
theorem draw_step {machine : Machine σ} {word : Word}
    (fetched : machine.memory.wordAt machine.counter = .ok word) (family : word.family.val = 0xD)
    (fits : machine.index.toNat + word.lastDigit ≤ 0x1000) :
    machine.step.answer = .ok .running ∧
      machine.Draws word.x word.y word.lastDigit machine.step.machine := by
  have decoded : machine.upcoming = .ok (.draw word.x word.y word.lastDigit) :=
    (upcoming_eq_ok_iff fetched _).mpr ⟨family, rfl, rfl, rfl⟩
  rw [answer_step_of_ok decoded, machine_step_of_ok decoded, execute_draw word.x word.y fits]
  exact ⟨rfl, machine.draws_drawSprite word.x word.y word.lastDigit⟩

/-- Two rows drawn over the right edge at row zero, and again with the flag, which holds five, for
the row: the second time all of them are erased. -/
theorem draw_step_flag_as_row :
    let start : Machine Slots := powerOn {} (Vector.replicate 8 0)
    let machine :=
      start.performAll [.load [0x603E, 0xA20A, 0xD012, 0x6F05, 0xD0F2, 0xE0E0], .run 4]
    let word : Word := 0xD0F2
    (machine.Reachable ∧ machine.memory.wordAt machine.counter = .ok word ∧
      word.family.val = 0xD ∧ machine.index.toNat + word.lastDigit ≤ 0x1000) ∧
    (machine.registers.get Register.flag = 5 ∧ machine.coordinate word.y = 0) ∧
    machine.step.answer = .ok .running ∧
    machine.Draws word.x word.y word.lastDigit machine.step.machine ∧
    machine.step.machine.registers.get Register.flag = 1 := by
  intro start machine word
  have accepted : ofConfig {} (Vector.replicate 8 0) = .ok start := rfl
  have reachable : machine.Reachable := (Reachable.powerOn accepted).performAll _
  obtain ⟨fetched, family, fits, five, zero⟩ : machine.memory.wordAt machine.counter = .ok word ∧
      word.family.val = 0xD ∧ machine.index.toNat + word.lastDigit ≤ 0x1000 ∧
      machine.registers.get Register.flag = 5 ∧ machine.coordinate word.y = 0 := by
    decide +kernel
  obtain ⟨lit, landed⟩ : machine.screen.dot 62 0 = 1 ∧
      (0, 0) ∈ (machine.spriteAtIndex word.lastDigit).landing
        (machine.coordinate word.x % 64) (machine.coordinate word.y % 32) 62 0 ∧
      (machine.spriteAtIndex word.lastDigit).bit 0 0 = true := by decide +kernel
  obtain ⟨answer, draws⟩ := draw_step fetched family fits
  have erased := draws.dot_of_landing 62 0 (0, 0) landed.1
  rw [lit, if_pos landed.2] at erased
  exact ⟨⟨reachable, fetched, family, fits⟩, ⟨five, zero⟩, answer, draws,
    draws.flag_eq_one_iff.mpr ⟨62, 0, lit, erased⟩⟩

end Machine

end Chip8
