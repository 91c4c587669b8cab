import Mathlib.Data.Finset.SymmDiff
import Mathlib.Data.Fintype.Basic
import Chip8.Proofs.Drawing.Repetition

/-!
# Counting lit dots

A sprite of at most 32 rows has its set bits on as many dots as there are set bits, and drawing it
on a screen of zeros and ones lights those of them that were dark and darkens the rest. So the
number of lit dots grows by the number of set bits, less two for each of them that was met.
-/

namespace Chip8

theorem card_symmDiff_add {α : Type} [DecidableEq α] (first second : Finset α) :
    (symmDiff first second).card + 2 * (first ∩ second).card = first.card + second.card := by
  have left := Finset.card_sdiff_add_card_inter first second
  have right := Finset.card_sdiff_add_card_inter second first
  rw [Finset.inter_comm] at right
  rw [symmDiff_def, Finset.sup_eq_union, Finset.card_union_of_disjoint disjoint_sdiff_sdiff]
  omega

namespace Screen

def lit (screen : Screen) : Finset (Fin 2048) :=
  Finset.univ.filter fun here => screen.get here = 1

/-- The set bits of a sprite that land on lit dots. -/
def met (screen : Screen) (sprite : Sprite) (x y : Nat) : Finset (Nat × Nat) :=
  sprite.litCells.filter fun cell => screen.dot (x + cell.1) (y + cell.2) = 1

variable {screen : Screen} {sprite : Sprite} (x y : Nat)

theorem place_mem_lit {column row : Nat} :
    place column row ∈ screen.lit ↔ screen.dot column row = 1 :=
  Finset.mem_filter.trans (and_iff_right (Finset.mem_univ _))

theorem lit_blank : blank.lit = ∅ := by
  refine Finset.filter_eq_empty_iff.mpr fun here _ bright => ?_
  have dark : blank.get here = 0 := Vector.getElem_replicate here.isLt
  rw [dark] at bright
  exact absurd bright (by decide)

theorem dot_draw_of_short (short : sprite.length ≤ 32) (column row : Nat) :
    (screen.draw sprite x y).screen.dot column row = screen.dot column row ^^^
      if place column row ∈ sprite.litCells.image (Sprite.place x y) then 1 else 0 := by
  split
  · next covered =>
    obtain ⟨cell, set, here⟩ := Finset.mem_image.mp covered
    obtain ⟨within, bit⟩ := Sprite.mem_litCells.mp set
    rw [dot_draw_of_mem short (Sprite.mem_landing.mpr ⟨within, here⟩), if_pos bit]
  · next bare =>
    have unlit : (sprite.landing x y column row).filter
        (fun cell => sprite.bit cell.1 cell.2) = ∅ := by
      refine Finset.filter_eq_empty_iff.mpr fun cell landed bit => bare ?_
      obtain ⟨within, here⟩ := Sprite.mem_landing.mp landed
      exact Finset.mem_image.mpr ⟨cell, Sprite.mem_litCells.mpr ⟨within, bit⟩, here⟩
    rw [dot_draw, Sprite.shade, unlit]
    rfl

theorem lit_draw (binary : screen.Binary) (short : sprite.length ≤ 32) :
    (screen.draw sprite x y).screen.lit =
      symmDiff screen.lit (sprite.litCells.image (Sprite.place x y)) := by
  ext here
  obtain ⟨column, row, rfl⟩ := exists_place_eq here
  rw [Finset.mem_symmDiff, place_mem_lit, place_mem_lit, dot_draw_of_short x y short]
  by_cases covered : place column row ∈ sprite.litCells.image (Sprite.place x y)
  · rcases binary.dot_eq column row with dark | bright
    · simp [dark, covered]
    · simp [bright, covered]
  · simp [covered]

theorem place_injOn_litCells (short : sprite.length ≤ 32) :
    Set.InjOn (Sprite.place x y) (sprite.litCells : Set (Nat × Nat)) :=
  (Sprite.place_injOn short).mono (Finset.coe_subset.mpr (Finset.filter_subset _ _))

theorem card_lit_inter (short : sprite.length ≤ 32) :
    (screen.lit ∩ sprite.litCells.image (Sprite.place x y)).card =
      (screen.met sprite x y).card := by
  have image : screen.lit ∩ sprite.litCells.image (Sprite.place x y) =
      (screen.met sprite x y).image (Sprite.place x y) := by
    ext here
    rw [Finset.mem_inter, Finset.mem_image, Finset.mem_image]
    constructor
    · rintro ⟨bright, cell, set, rfl⟩
      exact ⟨cell, Finset.mem_filter.mpr ⟨set, place_mem_lit.mp bright⟩, rfl⟩
    · rintro ⟨cell, hit, rfl⟩
      obtain ⟨set, bright⟩ := Finset.mem_filter.mp hit
      exact ⟨place_mem_lit.mpr bright, cell, set, rfl⟩
  have apart : Set.InjOn (Sprite.place x y) (screen.met sprite x y : Set (Nat × Nat)) :=
    (place_injOn_litCells x y short).mono (Finset.coe_subset.mpr (Finset.filter_subset _ _))
  rw [image, Finset.card_image_of_injOn apart]

theorem card_lit_draw (binary : screen.Binary) (short : sprite.length ≤ 32) :
    (screen.draw sprite x y).screen.lit.card + 2 * (screen.met sprite x y).card =
      screen.lit.card + sprite.litCells.card := by
  have exchange := card_symmDiff_add screen.lit (sprite.litCells.image (Sprite.place x y))
  rw [← lit_draw x y binary short, card_lit_inter x y short,
    Finset.card_image_of_injOn (place_injOn_litCells x y short)] at exchange
  exact exchange

theorem collided_draw_iff_card_met (short : sprite.length ≤ 32) :
    (screen.draw sprite x y).collided = true ↔ 0 < (screen.met sprite x y).card := by
  rw [collided_draw_iff_of_short _ short, Finset.card_pos, met, Finset.filter_nonempty_iff]

/-- The lit dots after a drawing, counted; without a collision there are as many more as the sprite
has set bits. -/
theorem draw_counts (binary : screen.Binary) (short : sprite.length ≤ 32) :
    let drawing := screen.draw sprite x y
    drawing.screen.Binary ∧
    drawing.screen.lit.card + 2 * (screen.met sprite x y).card =
      screen.lit.card + sprite.litCells.card ∧
    (drawing.collided = true ↔ 0 < (screen.met sprite x y).card) ∧
    (drawing.collided = false ↔
      drawing.screen.lit.card = screen.lit.card + sprite.litCells.card) := by
  intro drawing
  have counted : drawing.screen.lit.card + 2 * (screen.met sprite x y).card =
      screen.lit.card + sprite.litCells.card := card_lit_draw x y binary short
  have collided : drawing.collided = true ↔ 0 < (screen.met sprite x y).card :=
    collided_draw_iff_card_met x y short
  refine ⟨binary_draw binary sprite x y, counted, collided, ?_⟩
  rw [← Bool.not_eq_true, collided]
  omega

/-- A row on the blank screen, and then a square over the opposite corner that meets the row's two
dots. -/
theorem draw_counts_over_corner :
    let row : Sprite := [0xC0]
    let square : Sprite := [0xF0, 0xF0, 0xF0, 0xF0]
    let screen := (blank.draw row 0 0).screen
    let drawing := screen.draw square 62 30
    (screen.Binary ∧ square.length ≤ 32) ∧
    screen.lit.card = 2 ∧ square.litCells.card = 16 ∧ (screen.met square 62 30).card = 2 ∧
    drawing.screen.lit.card = 14 ∧ drawing.collided = true := by
  intro row square screen drawing
  have narrow : row.length ≤ 32 := by decide
  have short : square.length ≤ 32 := by decide
  obtain ⟨binary, first, _⟩ : screen.Binary ∧ screen.lit.card + 2 * (blank.met row 0 0).card =
      blank.lit.card + row.litCells.card ∧ _ := draw_counts 0 0 binary_blank narrow
  obtain ⟨_, counted, collided, _⟩ := draw_counts 62 30 binary short
  have unmet : (blank.met row 0 0).card = 0 := by decide +kernel
  have bitsOfRow : row.litCells.card = 2 := by decide +kernel
  have bits : square.litCells.card = 16 := by decide +kernel
  have hits : (screen.met square 62 30).card = 2 := by decide +kernel
  rw [unmet, lit_blank, bitsOfRow, Finset.card_empty, Nat.mul_zero, Nat.add_zero,
    Nat.zero_add] at first
  rw [first, bits, hits] at counted
  refine ⟨⟨binary, short⟩, first, bits, hits, Nat.add_right_cancel counted, ?_⟩
  rw [collided, hits]
  decide

end Screen

end Chip8
