import Chip8.Proofs.Drawing.Dots

/-!
# No position is special

Rotating a screen moves all of its dots by the same number of columns and rows, around the edges.
A sprite that is drawn as much further on covers the dots that have moved there with the same cells,
in the same order. So drawing and rotating come to the same screen, whichever is done first, and the
drawings collide alike.
-/

namespace Chip8

namespace Screen

section

variable (screen : Screen) {x y otherX otherY : Nat}

theorem dot_congr (columns : x % 64 = otherX % 64) (rows : y % 32 = otherY % 32) :
    screen.dot x y = screen.dot otherX otherY :=
  congrArg screen.get (place_eq_iff.mpr ⟨columns, rows⟩)

theorem draw_congr (sprite : Sprite) (columns : x % 64 = otherX % 64)
    (rows : y % 32 = otherY % 32) :
    screen.draw sprite x y = screen.draw sprite otherX otherY := by
  have places (across down : Nat) :
      place (x + across) (y + down) = place (otherX + across) (otherY + down) :=
    place_eq_iff.mpr (by omega)
  simp only [draw, places]

end

/-- A screen is its dots, counted from any of them. -/
theorem ext_dot_add (across down : Nat) {first second : Screen}
    (same : ∀ column row,
      first.dot (column + across) (row + down) = second.dot (column + across) (row + down)) :
    first = second := by
  refine ext_dot fun column row => ?_
  have columns : (column + (64 - across % 64) + across) % 64 = column % 64 := by omega
  have rows : (row + (32 - down % 32) + down) % 32 = row % 32 := by omega
  rw [← first.dot_congr columns rows, ← second.dot_congr columns rows]
  exact same _ _

/-- Each dot moves `across` columns to the right and `down` rows down. -/
def rotated (screen : Screen) (across down : Nat) : Screen :=
  Vector.ofFn fun here : Fin 2048 =>
    screen.dot (here.val % 64 + (64 - across % 64)) (here.val / 64 + (32 - down % 32))

@[simp]
theorem dot_rotated (screen : Screen) (across down column row : Nat) :
    (screen.rotated across down).dot (column + across) (row + down) = screen.dot column row := by
  refine (Vector.getElem_ofFn _).trans (screen.dot_congr ?_ ?_)
  · simp only [place]
    omega
  · simp only [place]
    omega

end Screen

@[simp]
theorem Sprite.landing_add (sprite : Sprite) (x y across down column row : Nat) :
    sprite.landing (x + across) (y + down) (column + across) (row + down) =
      sprite.landing x y column row := by
  refine Finset.filter_congr fun cell _ => ?_
  omega

namespace Screen

variable (screen : Screen) (sprite : Sprite)

theorem screen_draw_rotated (x y across down : Nat) :
    ((screen.rotated across down).draw sprite (x + across) (y + down)).screen =
      (screen.draw sprite x y).screen.rotated across down := by
  refine ext_dot_add across down fun column row => ?_
  simp

theorem collided_draw_rotated (x y across down : Nat) :
    ((screen.rotated across down).draw sprite (x + across) (y + down)).collided =
      (screen.draw sprite x y).collided := by
  rw [Bool.eq_iff_iff, collided_draw_iff, collided_draw_iff]
  refine exists_congr fun cell => and_congr_right fun _ => ?_
  rw [Nat.add_right_comm x, Nat.add_right_comm y, dot_rotated, Sprite.landing_add]

/-- A rotated screen, drawn on as much further along, is the rotation of the screen drawn on, and
the two drawings collide alike; the coordinates are bytes and wrap as bytes do. -/
theorem draw_rotated (x y across down : UInt8) :
    let rotated := screen.rotated across.toNat down.toNat
    let drawing := screen.draw sprite x.toNat y.toNat
    let drawingOnRotated := rotated.draw sprite (x + across).toNat (y + down).toNat
    (∀ column row, rotated.dot ((column + across.toNat) % 64) ((row + down.toNat) % 32) =
      screen.dot column row) ∧
    drawingOnRotated.screen = drawing.screen.rotated across.toNat down.toNat ∧
    drawingOnRotated.collided = drawing.collided := by
  intro rotated drawing drawingOnRotated
  -- Bytes wrap at a multiple of the width and of the height.
  have columns : (x + across).toNat % 64 = (x.toNat + across.toNat) % 64 := by
    rw [UInt8.toNat_add]
    omega
  have rows : (y + down).toNat % 32 = (y.toNat + down.toNat) % 32 := by
    rw [UInt8.toNat_add]
    omega
  have unwrapped : drawingOnRotated =
      rotated.draw sprite (x.toNat + across.toNat) (y.toNat + down.toNat) :=
    rotated.draw_congr sprite columns rows
  rw [unwrapped]
  refine ⟨fun column row => ?_, screen.screen_draw_rotated sprite _ _ _ _,
    screen.collided_draw_rotated sprite _ _ _ _⟩
  rw [rotated.dot_congr (Nat.mod_mod _ _) (Nat.mod_mod _ _)]
  exact screen.dot_rotated _ _ column row

end Screen

end Chip8
