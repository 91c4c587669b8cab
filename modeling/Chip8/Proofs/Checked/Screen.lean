import Mathlib.Control.Monad.Basic
import Chip8.Proofs.Checked.Operation
import Chip8.Screen

/-!
# Checked drawing

Drawing a sprite dot by dot: for each row of the sprite and each of its eight columns, the place on
the screen by masks, the dot there, the bit of the row by a shift, and the new dot. No operation
traps as long as the rows of the sprite can be counted, and the drawing is the one of the lit dots.
-/

namespace Chip8.Checked

/-- The longest slice that there is. -/
def longestSlice : Nat := 0x7FFFFFFFFFFFFFFF

def place (column row : Nat) : Except Trap Nat := do
  let above ← multiply (row &&& 31) 64
  add (column &&& 63) above

@[simp]
theorem place_eq (column row : Nat) : place column row = .ok (Screen.place column row).val := by
  have across : column &&& 63 = column % 64 := Nat.and_two_pow_sub_one_eq_mod column 6
  have down : row &&& 31 = row % 32 := Nat.and_two_pow_sub_one_eq_mod row 5
  have above : row % 32 * 64 < numberBound := lt_numberBound (by omega)
  have inside : column % 64 + row % 32 * 64 < numberBound := lt_numberBound (by omega)
  simp [place, Screen.place, across, down, above, inside]

def dot (screen : Screen) (column row : Nat) : Except Trap UInt8 := do
  fetch screen.toList (← place column row)

@[simp]
theorem dot_eq (screen : Screen) (column row : Nat) :
    dot screen column row = .ok (screen.dot column row) := by
  simp [dot, Screen.dot]

/-- One column of one row of a sprite. -/
def drawBit (x y : Nat) (bits : UInt8) (down : Nat) (drawing : Drawing) (across : Nat) :
    Except Trap Drawing := do
  let column ← add x across
  let row ← add y down
  let place ← place column row
  let old ← fetch drawing.screen.toList place
  let amount ← subtract 7 across
  let shifted ← shiftRight 8 bits.toNat amount
  let lit := UInt8.ofNat shifted &&& 1
  let screen ← put drawing.screen place (old ^^^ lit)
  return ⟨screen, drawing.collided || (old == 1 && lit == 1)⟩

def draw (screen : Screen) (sprite : Sprite) (x y : UInt8) : Except Trap Drawing :=
  sprite.zipIdx.foldlM (fun drawing (bits, down) =>
      (List.range 8).foldlM (drawBit (x.toNat % 64) (y.toNat % 32) bits down) drawing)
    ⟨screen, false⟩

theorem lowBit_shiftRight (bits : UInt8) (amount : Nat) :
    UInt8.ofNat (bits.toNat >>> amount) &&& 1 = if bits.toNat.testBit amount then 1 else 0 := by
  have low (number : Nat) : number % 256 &&& 1 = number % 2 := by
    rw [Nat.and_one_is_mod]
    omega
  apply UInt8.toNat_inj.mp
  rw [UInt8.toNat_and, UInt8.toNat_ofNat', Nat.testBit_eq_decide_div_mod_eq,
    Nat.shiftRight_eq_div_pow, UInt8.toNat_one, low]
  rcases Nat.mod_two_eq_zero_or_one (bits.toNat / 2 ^ amount) with even | odd
  · rw [even]
    rfl
  · rw [odd]
    rfl

/-- A clear bit leaves the dot as it is. -/
theorem drawBit_eq {x y down across : Nat} (bits : UInt8) (drawing : Drawing) (left : x < 64)
    (single : across < 8) (high : y + down < numberBound) :
    drawBit x y bits down drawing across =
      .ok (if bits.toNat.testBit (7 - across) then
        drawing.flip (Screen.place (x + across) (y + down)) else drawing) := by
  have small : x + across < numberBound := lt_numberBound (by omega)
  have narrow : 7 - across < 8 := by omega
  have counted : across ≤ 7 := Nat.le_of_lt_succ single
  cases bit : bits.toNat.testBit (7 - across) with
  | true =>
      simp [drawBit, small, high, counted, narrow, lowBit_shiftRight, bit, Drawing.flip]
  | false =>
      -- A dot is written under a clear bit too, with its own value.
      simp [drawBit, small, high, counted, narrow, lowBit_shiftRight, bit]

theorem place_mod (x y across down : Nat) :
    Screen.place (x % 64 + across) (y % 32 + down) = Screen.place (x + across) (y + down) := by
  apply Fin.ext
  simp only [Screen.place, Nat.mod_add_mod]

/-- The drawing of one row of a sprite. -/
def drawRow (x y : Nat) (drawing : Drawing) (row : UInt8 × Nat) : Drawing :=
  (List.range 8).foldl (fun drawing across =>
    if row.1.toNat.testBit (7 - across) then
      drawing.flip (Screen.place (x + across) (y + row.2)) else drawing) drawing

theorem foldl_drawRow (screen : Screen) (sprite : Sprite) (x y : Nat) :
    sprite.zipIdx.foldl (drawRow x y) ⟨screen, false⟩ = screen.draw sprite x y := by
  rw [Screen.draw, Sprite.litDots, List.foldl_map, List.foldl_flatMap]
  simp only [List.foldl_map, Sprite.litColumns, List.foldl_filter]
  rfl

theorem draw_eq (screen : Screen) {sprite : Sprite} (countable : sprite.length ≤ longestSlice)
    (x y : UInt8) : draw screen sprite x y = .ok (screen.draw sprite x.toNat y.toNat) := by
  have rows : ∀ row ∈ sprite.zipIdx, ∀ drawing,
      (List.range 8).foldlM (drawBit (x.toNat % 64) (y.toNat % 32) row.1 row.2) drawing =
        .ok (drawRow x.toNat y.toNat drawing row) := by
    intro row listed drawing
    have before : row.2 < sprite.length := List.snd_lt_of_mem_zipIdx listed
    have high : y.toNat % 32 + row.2 < numberBound := by
      simp only [numberBound, longestSlice] at *
      omega
    refine foldlM_eq_ok (fun across single drawing => ?_) drawing
    rw [drawBit_eq _ _ (Nat.mod_lt _ (by decide)) (List.mem_range.mp single) high, place_mod]
  rw [← foldl_drawRow]
  exact foldlM_eq_ok rows _

def pictureDot (screen : Screen) (row : Fin 32) (column : Fin 64) : Except Trap Char := do
  let above ← multiply row 64
  let place ← add column above
  return if (← fetch screen.toList place) = 0 then '.' else '#'

def pictureLine (screen : Screen) (row : Fin 32) : Except Trap String := do
  let dots ← (List.finRange 64).mapM (pictureDot screen row)
  return String.ofList dots ++ "\n"

def picture (screen : Screen) : Except Trap String := do
  let lines ← (List.finRange 32).mapM (pictureLine screen)
  return String.join lines

@[simp]
theorem pictureDot_eq (screen : Screen) (row : Fin 32) (column : Fin 64) :
    pictureDot screen row column = .ok (if screen.dot column row = 0 then '.' else '#') := by
  have above : row.val * 64 < numberBound := lt_numberBound (by omega)
  have inside : column + row.val * 64 < numberBound := lt_numberBound (by omega)
  have same : column + row.val * 64 = (Screen.place column row).val := by
    simp only [Screen.place]
    omega
  rw [pictureDot, multiply_of_lt above, ok_bind, add_of_lt inside, ok_bind, same,
    fetch_toList screen (Screen.place column row).isLt]
  rfl

@[simp]
theorem pictureLine_eq (screen : Screen) (row : Fin 32) :
    pictureLine screen row = .ok (screen.pictureLine row ++ "\n") := by
  rw [pictureLine, mapM_eq_ok fun column _ => pictureDot_eq screen row column]
  rfl

theorem picture_eq (screen : Screen) : picture screen = .ok screen.picture := by
  rw [picture, mapM_eq_ok fun row _ => pictureLine_eq screen row]
  rfl

end Chip8.Checked
