/-!
# The screen

64 columns by 32 rows of dots, a byte each, zero for dark; the machine itself only ever writes
zeros and ones. A sprite is a column of bytes, one row of eight dots each with the highest bit on
the left. Drawing flips the lowest bit of the dot under each set bit of the sprite. Positions wrap
at both edges, so a sprite of more than 32 rows flips some dots more than once. The drawing reports
a collision when it flips a dot that is one at that moment.
-/

namespace Chip8

abbrev Screen := Vector UInt8 2048

abbrev Sprite := List UInt8

namespace Screen

def width : Nat := 64

def height : Nat := 32

def blank : Screen := Vector.replicate 2048 0

/-- The place of a column and a row, both taken modulo the size of the screen. -/
def place (column row : Nat) : Fin 2048 :=
  ⟨column % 64 + row % 32 * 64, by omega⟩

def dot (screen : Screen) (column row : Nat) : UInt8 :=
  screen[place column row]

theorem length_toList (screen : Screen) : screen.toList.length = width * height := by
  simp [width, height]

end Screen

namespace Sprite

/-- The columns of the set bits of a row, from the left. -/
def litColumns (row : UInt8) : List Nat :=
  (List.range 8).filter fun column => row.toNat.testBit (7 - column)

/-- The columns and rows of the set bits, in reading order. -/
def litDots (sprite : Sprite) : List (Nat × Nat) :=
  sprite.zipIdx.flatMap fun (row, number) => (litColumns row).map fun column => (column, number)

@[simp]
theorem mem_litColumns {row : UInt8} {column : Nat} :
    column ∈ litColumns row ↔ column < 8 ∧ row.toNat.testBit (7 - column) := by
  simp [litColumns]

theorem mem_litDots {sprite : Sprite} {column number : Nat} :
    (column, number) ∈ sprite.litDots ↔
      ∃ row, sprite[number]? = some row ∧ column ∈ litColumns row := by
  simp only [litDots, List.mem_flatMap, List.mem_map, Prod.mk.injEq, Prod.exists]
  constructor
  · rintro ⟨row, place, listed, found, lit, rfl, rfl⟩
    exact ⟨row, by simpa [List.mem_zipIdx_iff_getElem?] using listed, lit⟩
  · rintro ⟨row, listed, lit⟩
    exact ⟨row, number, by simpa [List.mem_zipIdx_iff_getElem?] using listed, column, lit, rfl, rfl⟩

end Sprite

structure Drawing where
  screen : Screen
  collided : Bool
  deriving DecidableEq

def Drawing.flip (drawing : Drawing) (place : Fin 2048) : Drawing where
  screen := drawing.screen.set place (drawing.screen[place] ^^^ 1)
  collided := drawing.collided || drawing.screen[place] == 1

theorem Drawing.getElem_flip (drawing : Drawing) (place other : Fin 2048) :
    (drawing.flip place).screen[other] =
      if place = other then drawing.screen[other] ^^^ 1 else drawing.screen[other] := by
  by_cases same : place = other
  · subst same
    simp [flip]
  · have apart : place.val ≠ other.val := fun equal => same (Fin.ext equal)
    simp [flip, same, apart]

def Screen.draw (screen : Screen) (sprite : Sprite) (column row : Nat) : Drawing :=
  (sprite.litDots.map fun (across, down) => place (column + across) (row + down)).foldl
    Drawing.flip ⟨screen, false⟩

namespace Screen

def pictureLine (screen : Screen) (row : Fin 32) : String :=
  String.ofList ((List.finRange 64).map fun column : Fin 64 =>
    if screen.dot column row = 0 then '.' else '#')

/-- One line a row, each ended by a line feed. -/
def picture (screen : Screen) : String :=
  String.join ((List.finRange 32).map fun row => screen.pictureLine row ++ "\n")

end Screen

end Chip8
