import Mathlib.Data.Finset.Card
import Mathlib.Data.Finset.Prod
import Chip8.Screen

/-!
# Cells of a sprite

A sprite has one cell for each of its bits, eight in a row. When it is drawn somewhere, each cell
lands on a dot of the screen: the cells that land on a dot are those whose column and row agree
with it modulo the size of the screen. A dot is changed by the exclusive or of the bits that land
on it, which is the parity of how many of them are set. Cells of one row never land together, and
no two cells do while the sprite is no taller than the screen.
-/

namespace Chip8

/-- One for an odd number and zero for an even one. -/
def parity (number : Nat) : UInt8 :=
  UInt8.ofNat (number % 2)

theorem parity_add (first second : Nat) :
    parity (first + second) = parity first ^^^ parity second := by
  rw [parity, parity, parity, Nat.add_mod]
  rcases Nat.mod_two_eq_zero_or_one first with left | left <;>
    rcases Nat.mod_two_eq_zero_or_one second with right | right <;>
    rw [left, right] <;> rfl

theorem testBit_parity (number : Nat) {place : Nat} (high : 1 ≤ place) :
    (parity number).toNat.testBit place = false := by
  apply Nat.testBit_lt_two_pow
  have above : 2 ^ 1 ≤ 2 ^ place := Nat.pow_le_pow_right (by decide) high
  have low : number % 2 < 2 := Nat.mod_lt number (by decide)
  rw [parity, UInt8.toNat_ofNat']
  omega

theorem Screen.place_eq_iff {column row otherColumn otherRow : Nat} :
    place column row = place otherColumn otherRow ↔
      column % 64 = otherColumn % 64 ∧ row % 32 = otherRow % 32 := by
  rw [Fin.ext_iff, place, place]
  dsimp only
  omega

namespace Sprite

/-- The bit in a column and a row; the leftmost of a row is its highest. -/
def bit (sprite : Sprite) (across down : Nat) : Bool :=
  (sprite[down]?.getD 0).toNat.testBit (7 - across)

/-- The column and the row of each bit. -/
def cells (sprite : Sprite) : Finset (Nat × Nat) :=
  Finset.range 8 ×ˢ Finset.range sprite.length

def litCells (sprite : Sprite) : Finset (Nat × Nat) :=
  sprite.cells.filter fun cell => sprite.bit cell.1 cell.2

/-- The cells that land on a dot when the sprite is drawn at column `x` and row `y`. -/
def landing (sprite : Sprite) (x y column row : Nat) : Finset (Nat × Nat) :=
  sprite.cells.filter fun cell =>
    (x + cell.1) % 64 = column % 64 ∧ (y + cell.2) % 32 = row % 32

/-- The exclusive or of the bits in some cells. -/
def shade (sprite : Sprite) (cells : Finset (Nat × Nat)) : UInt8 :=
  parity (cells.filter fun cell => sprite.bit cell.1 cell.2).card

/-- Where a cell lands when the sprite is drawn at column `x` and row `y`. -/
def place (x y : Nat) (cell : Nat × Nat) : Fin 2048 :=
  Screen.place (x + cell.1) (y + cell.2)

variable {sprite : Sprite} {x y column row : Nat} {cell : Nat × Nat}

@[simp]
theorem mem_cells : cell ∈ sprite.cells ↔ cell.1 < 8 ∧ cell.2 < sprite.length := by
  simp [cells]

@[simp]
theorem mem_litCells :
    cell ∈ sprite.litCells ↔ cell ∈ sprite.cells ∧ sprite.bit cell.1 cell.2 = true := by
  simp [litCells]

@[simp]
theorem mem_landing :
    cell ∈ sprite.landing x y column row ↔
      cell ∈ sprite.cells ∧ place x y cell = Screen.place column row := by
  rw [landing, Finset.mem_filter, place, Screen.place_eq_iff]

@[simp]
theorem landing_mod : sprite.landing (x % 64) (y % 32) = sprite.landing x y := by
  funext column row
  simp only [landing, Nat.mod_add_mod]

@[simp]
theorem shade_empty : sprite.shade ∅ = 0 :=
  rfl

theorem mem_litDots_iff : cell ∈ sprite.litDots ↔ cell ∈ sprite.litCells := by
  obtain ⟨across, down⟩ := cell
  rw [mem_litDots, mem_litCells, mem_cells]
  constructor
  · rintro ⟨row, listed, lit⟩
    obtain ⟨single, set⟩ := mem_litColumns.mp lit
    exact ⟨⟨single, (List.getElem?_eq_some_iff.mp listed).1⟩, by simpa [bit, listed] using set⟩
  · rintro ⟨⟨single, within⟩, set⟩
    refine ⟨sprite[down], List.getElem?_eq_getElem within, mem_litColumns.mpr ⟨single, ?_⟩⟩
    simpa [bit, List.getElem?_eq_getElem within] using set

theorem eq_of_place_eq_of_row_eq {other : Nat × Nat} (single : cell ∈ sprite.cells)
    (singleOther : other ∈ sprite.cells) (level : cell.2 = other.2)
    (together : place x y cell = place x y other) : cell = other := by
  have columns := (Screen.place_eq_iff.mp together).1
  rw [mem_cells] at single singleOther
  exact Prod.ext (by omega) level

theorem place_injOn (short : sprite.length ≤ 32) :
    Set.InjOn (place x y) (sprite.cells : Set (Nat × Nat)) := by
  intro cell within other withinOther together
  have rows := (Screen.place_eq_iff.mp together).2
  rw [Finset.mem_coe, mem_cells] at within withinOther
  have level : cell.2 = other.2 := by omega
  exact eq_of_place_eq_of_row_eq (mem_cells.mpr within) (mem_cells.mpr withinOther) level together

theorem card_landing_le (short : sprite.length ≤ 32) (x y column row : Nat) :
    (sprite.landing x y column row).card ≤ 1 := by
  refine Finset.card_le_one.mpr fun cell landed other landedOther => ?_
  obtain ⟨within, here⟩ := mem_landing.mp landed
  obtain ⟨withinOther, hereToo⟩ := mem_landing.mp landedOther
  exact place_injOn short within withinOther (here.trans hereToo.symm)

theorem landing_eq_singleton (short : sprite.length ≤ 32)
    (landed : cell ∈ sprite.landing x y column row) : sprite.landing x y column row = {cell} :=
  Finset.eq_singleton_iff_unique_mem.mpr ⟨landed, fun other landedOther =>
    Finset.card_le_one.mp (card_landing_le short x y column row) other landedOther cell landed⟩

theorem shade_landing_of_mem (short : sprite.length ≤ 32)
    (landed : cell ∈ sprite.landing x y column row) :
    sprite.shade (sprite.landing x y column row) = if sprite.bit cell.1 cell.2 then 1 else 0 := by
  rw [landing_eq_singleton short landed, shade, Finset.filter_singleton]
  split
  · rfl
  · rfl

/-- Row by row, and from the left within a row. -/
def Precedes (first second : Nat × Nat) : Prop :=
  first.2 < second.2 ∨ first.2 = second.2 ∧ first.1 < second.1

theorem pairwise_litDots (sprite : Sprite) : sprite.litDots.Pairwise Precedes := by
  have numbers : (sprite.zipIdx.map Prod.snd).Pairwise (· < ·) := by
    rw [List.zipIdx_map_snd]
    exact List.pairwise_lt_range'
  rw [litDots, List.pairwise_flatMap]
  constructor
  · rintro ⟨row, number⟩ _
    have columns : (litColumns row).Pairwise (· < ·) := List.pairwise_lt_range.filter _
    exact columns.map _ fun _ _ left => .inr ⟨rfl, left⟩
  · refine (List.pairwise_map.mp numbers).imp fun above cell listed other listedOther => ?_
    obtain ⟨_, _, rfl⟩ := List.mem_map.mp listed
    obtain ⟨_, _, rfl⟩ := List.mem_map.mp listedOther
    exact .inl above

theorem nodup_litDots (sprite : Sprite) : sprite.litDots.Nodup := by
  refine sprite.pairwise_litDots.imp fun precedes => ?_
  rintro rfl
  rcases precedes with above | ⟨_, left⟩
  · exact Nat.lt_irrefl _ above
  · exact Nat.lt_irrefl _ left

/-- Of the set bits that land with a bit, those ahead of it in reading order are in the rows
above. -/
theorem mem_before_iff {before after : List (Nat × Nat)}
    (split : sprite.litDots = before ++ cell :: after) (other : Nat × Nat) :
    other ∈ before ∧ place x y other = place x y cell ↔
      other ∈ sprite.litCells ∧ place x y other = place x y cell ∧ other.2 < cell.2 := by
  have order := sprite.pairwise_litDots
  rw [split] at order
  obtain ⟨_, onward, ahead⟩ := List.pairwise_append.mp order
  have lit (dot : Nat × Nat) : dot ∈ sprite.litCells ↔ dot ∈ before ∨ dot = cell ∨ dot ∈ after := by
    rw [← mem_litDots_iff, split, List.mem_append, List.mem_cons]
  have within {dot : Nat × Nat} (set : dot ∈ sprite.litCells) : dot ∈ sprite.cells :=
    (mem_litCells.mp set).1
  constructor
  · rintro ⟨listed, together⟩
    have set := (lit other).mpr (.inl listed)
    refine ⟨set, together, ?_⟩
    rcases ahead other listed cell List.mem_cons_self with above | ⟨level, left⟩
    · exact above
    · -- To the left in the same row, it would land on a dot of its own.
      have same := eq_of_place_eq_of_row_eq (within set) (within ((lit cell).mpr (.inr (.inl rfl))))
        level together
      rw [same] at left
      exact absurd left (Nat.lt_irrefl _)
  · rintro ⟨set, together, above⟩
    refine ⟨?_, together⟩
    rcases (lit other).mp set with listed | rfl | later
    · exact listed
    · exact absurd above (Nat.lt_irrefl _)
    · rcases (List.pairwise_cons.mp onward).1 other later with below | ⟨level, _⟩
      · exact absurd below (Nat.lt_asymm above)
      · exact absurd level.symm (Nat.ne_of_lt above)

theorem count_map_eq_card {land : Nat × Nat → Fin 2048} {listed : List (Nat × Nat)}
    (distinct : listed.Nodup) {here : Fin 2048} {found : Finset (Nat × Nat)}
    (same : ∀ cell, cell ∈ found ↔ cell ∈ listed ∧ land cell = here) :
    (listed.map land).count here = found.card := by
  have filtered : found = (listed.filter (land · = here)).toFinset := by
    ext cell
    simp [same]
  rw [filtered, List.toFinset_card_of_nodup (distinct.filter _), List.count_eq_countP,
    List.countP_map, List.countP_eq_length_filter]
  rfl

theorem parity_count (sprite : Sprite) (x y column row : Nat) :
    parity ((sprite.litDots.map (place x y)).count (Screen.place column row)) =
      sprite.shade (sprite.landing x y column row) := by
  rw [shade, count_map_eq_card sprite.nodup_litDots fun cell => ?_]
  rw [Finset.mem_filter, mem_landing, mem_litDots_iff, mem_litCells]
  tauto

theorem parity_count_before (x y : Nat) {before after : List (Nat × Nat)}
    (split : sprite.litDots = before ++ cell :: after) :
    parity ((before.map (place x y)).count (place x y cell)) =
      sprite.shade ((sprite.landing x y (x + cell.1) (y + cell.2)).filter (·.2 < cell.2)) := by
  have distinct := sprite.nodup_litDots
  rw [split] at distinct
  rw [shade, count_map_eq_card distinct.of_append_left fun other => ?_]
  rw [mem_before_iff split, Finset.mem_filter, Finset.mem_filter, mem_landing, mem_litCells,
    ← place]
  tauto

end Sprite

end Chip8
