import Chip8.Proofs.Drawing.Dots
import Chip8.Proofs.Screen

/-!
# Drawing again, and in another order

What a drawing changes depends on the sprite and where it is drawn, and not on the screen. So the
same drawing made again takes itself back, and two drawings come to the same screen in either
order. The collisions do depend on the screen: a sprite drawn again meets what it lit before.
-/

namespace Chip8.Screen

theorem xor_one_eq_one_iff (byte : UInt8) : byte ^^^ 1 = 1 ↔ byte = 0 := by
  constructor
  · intro flipped
    rw [← UInt8.xor_zero (a := byte), ← UInt8.xor_self (a := 1), ← UInt8.xor_assoc, flipped]
  · rintro rfl
    rfl

theorem draw_draw (screen : Screen) (sprite : Sprite) (x y : Nat) :
    ((screen.draw sprite x y).screen.draw sprite x y).screen = screen := by
  refine ext_dot fun column row => ?_
  rw [dot_draw, dot_draw, UInt8.xor_assoc, UInt8.xor_self, UInt8.xor_zero]

theorem draw_comm (screen : Screen) (sprite other : Sprite) (x y otherX otherY : Nat) :
    ((screen.draw sprite x y).screen.draw other otherX otherY).screen =
      ((screen.draw other otherX otherY).screen.draw sprite x y).screen := by
  refine ext_dot fun column row => ?_
  rw [dot_draw, dot_draw, dot_draw, dot_draw, UInt8.xor_assoc, UInt8.xor_assoc,
    UInt8.xor_comm (sprite.shade _)]

section

variable {screen : Screen} {sprite : Sprite} (short : sprite.length ≤ 32) (x y : Nat)

include short

/-- The second of two drawings collides where the first one lit a dot. -/
theorem collided_draw_draw_iff :
    ((screen.draw sprite x y).screen.draw sprite x y).collided = true ↔
      ∃ cell ∈ sprite.litCells, screen.dot (x + cell.1) (y + cell.2) = 0 := by
  rw [collided_draw_iff_of_short _ short]
  refine exists_congr fun cell => and_congr_right fun set => ?_
  rw [dot_draw_of_mem_litCells short set, xor_one_eq_one_iff]

theorem collided_either_iff (binary : screen.Binary) :
    ((screen.draw sprite x y).collided = true ∨
      ((screen.draw sprite x y).screen.draw sprite x y).collided = true) ↔
      sprite.litCells.Nonempty := by
  rw [collided_draw_draw_iff short, collided_draw_iff_of_short _ short]
  constructor
  · rintro (⟨cell, set, _⟩ | ⟨cell, set, _⟩)
    · exact ⟨cell, set⟩
    · exact ⟨cell, set⟩
  · rintro ⟨cell, set⟩
    rcases binary.dot_eq (x + cell.1) (y + cell.2) with dark | lit
    · exact .inr ⟨cell, set, dark⟩
    · exact .inl ⟨cell, set, lit⟩

end

/-- A drawing takes itself back and can be made before or after any other; drawn twice, a sprite
with a set bit collides at least once. -/
theorem draws_cancel_and_commute (screen : Screen) (sprite other : Sprite)
    (x y otherX otherY : Nat) :
    let once := screen.draw sprite x y
    let twice := once.screen.draw sprite x y
    twice.screen = screen ∧
    (once.screen.draw other otherX otherY).screen =
      ((screen.draw other otherX otherY).screen.draw sprite x y).screen ∧
    (screen.Binary → sprite.length ≤ 32 →
      (twice.collided = true ↔
        ∃ cell ∈ sprite.litCells, screen.dot (x + cell.1) (y + cell.2) = 0) ∧
      (once.collided = true ∨ twice.collided = true ↔ sprite.litCells.Nonempty)) :=
  ⟨screen.draw_draw sprite x y, screen.draw_comm sprite other x y otherX otherY,
    fun binary short => ⟨collided_draw_draw_iff short x y,
      collided_either_iff short x y binary⟩⟩

/-- A row drawn twice over the right edge, half of it over a row that was there before, and once
together with a sprite that is taller than the screen. -/
theorem draws_cancel_and_commute_at_edge :
    let screen := (blank.draw [0xF0] 58 9).screen
    let row : Sprite := [0x3C]
    let tower : Sprite := List.replicate 40 0xFF
    let once := screen.draw row 58 9
    let twice := once.screen.draw row 58 9
    (screen.Binary ∧ row.length ≤ 32) ∧
    twice.screen = screen ∧
    (once.screen.draw tower 60 3).screen = ((screen.draw tower 60 3).screen.draw row 58 9).screen ∧
    once.collided = true ∧ twice.collided = true := by
  intro screen row tower once twice
  have binary : screen.Binary := binary_draw binary_blank [0xF0] 58 9
  have short : row.length ≤ 32 := by decide
  obtain ⟨restored, swapped, again⟩ := screen.draws_cancel_and_commute row tower 58 9 60 3
  obtain ⟨twice_iff, _⟩ := again binary short
  have met : once.collided = true := by decide +kernel
  exact ⟨⟨binary, short⟩, restored, swapped, met, twice_iff.mpr ⟨(4, 0), by decide +kernel⟩⟩

end Chip8.Screen
