import Chip8.Screen

/-!
# Screens of zeros and ones

A screen is binary when each of its dots is zero or one. The blank screen is, and drawing keeps a
screen so, whatever the sprite and wherever it is drawn.
-/

namespace Chip8

def Screen.Binary (screen : Screen) : Prop :=
  ∀ dot ∈ screen, dot = 0 ∨ dot = 1

theorem Screen.binary_blank : Screen.blank.Binary := by
  intro dot member
  exact .inl (Vector.eq_of_mem_replicate member)

theorem Screen.Binary.dot_eq {screen : Screen} (binary : screen.Binary) (column row : Nat) :
    screen.dot column row = 0 ∨ screen.dot column row = 1 :=
  binary _ (Vector.getElem_mem _)

theorem Drawing.binary_flip {drawing : Drawing} (binary : drawing.screen.Binary)
    (place : Fin 2048) : (drawing.flip place).screen.Binary := by
  intro dot member
  obtain ⟨other, inside, rfl⟩ := Vector.getElem_of_mem member
  have flipped := drawing.getElem_flip place ⟨other, inside⟩
  simp only [Fin.getElem_fin] at flipped
  rw [flipped]
  split
  · rcases binary _ (Vector.getElem_mem inside) with dark | lit
    · rw [dark]
      exact .inr rfl
    · rw [lit]
      exact .inl rfl
  · exact binary _ (Vector.getElem_mem inside)

theorem Drawing.binary_foldl_flip {drawing : Drawing} (binary : drawing.screen.Binary)
    (places : List (Fin 2048)) : (places.foldl Drawing.flip drawing).screen.Binary := by
  induction places generalizing drawing with
  | nil => exact binary
  | cons place rest ih => exact ih (binary_flip binary place)

theorem Screen.binary_draw {screen : Screen} (binary : screen.Binary) (sprite : Sprite)
    (column row : Nat) : (screen.draw sprite column row).screen.Binary :=
  Drawing.binary_foldl_flip binary _

end Chip8
