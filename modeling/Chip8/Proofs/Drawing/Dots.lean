import Chip8.Proofs.Drawing.Cells

/-!
# Drawings dot by dot

Drawing flips one dot for each set bit, in reading order. So a dot changes by the parity of the set
bits that land on it, and the flips before a set bit leave its dot changed by the set bits of the
rows above that land there; a collision is a set bit whose dot is one at that moment. With at most
32 rows nothing is flipped before, and the dots of the old screen decide.
-/

namespace Chip8

namespace Drawing

theorem get_flip_xor (drawing : Drawing) (first here : Fin 2048) (rest : List (Fin 2048)) :
    (drawing.flip first).screen.get here ^^^ parity (rest.count here) =
      drawing.screen.get here ^^^ parity ((first :: rest).count here) := by
  have flipped : (drawing.flip first).screen.get here =
      if first = here then drawing.screen.get here ^^^ 1 else drawing.screen.get here :=
    drawing.getElem_flip first here
  rw [flipped, List.count_cons, Nat.add_comm, parity_add, ← UInt8.xor_assoc]
  by_cases same : first = here
  · rw [if_pos same, if_pos (beq_iff_eq.mpr same)]
    rfl
  · rw [if_neg same, if_neg (mt beq_iff_eq.mp same)]
    exact congrArg (· ^^^ _) UInt8.xor_zero.symm

theorem get_foldl_flip (drawing : Drawing) (places : List (Fin 2048)) (here : Fin 2048) :
    (places.foldl Drawing.flip drawing).screen.get here =
      drawing.screen.get here ^^^ parity (places.count here) := by
  induction places generalizing drawing with
  | nil => exact UInt8.xor_zero.symm
  | cons first rest ih => rw [List.foldl_cons, ih, get_flip_xor]

/-- A collision is the flip of a dot that is one after the flips before. -/
theorem collided_foldl_flip_iff {α : Type} (land : α → Fin 2048) (drawing : Drawing)
    (cells : List α) :
    ((cells.map land).foldl Drawing.flip drawing).collided = true ↔
      drawing.collided = true ∨ ∃ before cell after, cells = before ++ cell :: after ∧
        drawing.screen.get (land cell) ^^^ parity ((before.map land).count (land cell)) = 1 := by
  induction cells generalizing drawing with
  | nil => simp
  | cons first rest ih =>
      have here : (drawing.flip (land first)).collided = true ↔
          drawing.collided = true ∨ drawing.screen.get (land first) = 1 := by
        rw [flip, Bool.or_eq_true, beq_iff_eq]
        rfl
      -- The first flip is done for the rest of the list and counted in the whole of it.
      rw [List.map_cons, List.foldl_cons, ih, here, or_assoc]
      refine or_congr_right ⟨?_, ?_⟩
      · rintro (lit | ⟨before, cell, after, rfl, lit⟩)
        · exact ⟨[], first, rest, rfl, UInt8.xor_zero.trans lit⟩
        · refine ⟨first :: before, cell, after, rfl, ?_⟩
          rw [List.map_cons, ← get_flip_xor]
          exact lit
      · rintro ⟨before, cell, after, split, lit⟩
        rcases List.cons_eq_append_iff.mp split with ⟨rfl, same⟩ | ⟨later, rfl, rfl⟩
        · cases same
          exact .inl (UInt8.xor_zero.symm.trans lit)
        · refine .inr ⟨later, cell, after, rfl, ?_⟩
          rw [get_flip_xor]
          exact lit

end Drawing

namespace Screen

theorem exists_place_eq (here : Fin 2048) : ∃ column row, place column row = here := by
  refine ⟨here.val % 64, here.val / 64, Fin.ext ?_⟩
  have inside := here.isLt
  rw [place]
  dsimp only
  omega

theorem ext_dot {first second : Screen}
    (same : ∀ column row, first.dot column row = second.dot column row) : first = second := by
  apply Vector.ext
  intro number inside
  obtain ⟨column, row, here⟩ := exists_place_eq ⟨number, inside⟩
  obtain rfl : (place column row).val = number := congrArg Fin.val here
  exact same column row

@[simp]
theorem dot_draw (screen : Screen) (sprite : Sprite) (x y column row : Nat) :
    (screen.draw sprite x y).screen.dot column row =
      screen.dot column row ^^^ sprite.shade (sprite.landing x y column row) := by
  rw [← Sprite.parity_count]
  exact Drawing.get_foldl_flip ⟨screen, false⟩ _ (place column row)

section

variable {screen : Screen} {sprite : Sprite} {x y column row : Nat} {cell : Nat × Nat}

theorem dot_draw_of_missed (missed : sprite.landing x y column row = ∅) :
    (screen.draw sprite x y).screen.dot column row = screen.dot column row := by
  simp [missed]

theorem dot_draw_of_mem (short : sprite.length ≤ 32)
    (landed : cell ∈ sprite.landing x y column row) :
    (screen.draw sprite x y).screen.dot column row =
      screen.dot column row ^^^ if sprite.bit cell.1 cell.2 then 1 else 0 := by
  rw [dot_draw, Sprite.shade_landing_of_mem short landed]

theorem dot_draw_of_mem_litCells (short : sprite.length ≤ 32) (set : cell ∈ sprite.litCells) :
    (screen.draw sprite x y).screen.dot (x + cell.1) (y + cell.2) =
      screen.dot (x + cell.1) (y + cell.2) ^^^ 1 := by
  obtain ⟨within, bit⟩ := Sprite.mem_litCells.mp set
  rw [dot_draw_of_mem short (Sprite.mem_landing.mpr ⟨within, rfl⟩), if_pos bit]

end

theorem collided_draw_iff (screen : Screen) (sprite : Sprite) (x y : Nat) :
    (screen.draw sprite x y).collided = true ↔ ∃ cell ∈ sprite.litCells,
      screen.dot (x + cell.1) (y + cell.2) ^^^ sprite.shade
        ((sprite.landing x y (x + cell.1) (y + cell.2)).filter (·.2 < cell.2)) = 1 := by
  have flips := Drawing.collided_foldl_flip_iff (Sprite.place x y) ⟨screen, false⟩ sprite.litDots
  refine flips.trans ⟨?_, ?_⟩
  · rintro (impossible | ⟨before, cell, after, split, lit⟩)
    · cases impossible
    · refine ⟨cell, ?_, ?_⟩
      · rw [← Sprite.mem_litDots_iff, split]
        exact List.mem_append_right _ List.mem_cons_self
      · rw [← Sprite.parity_count_before x y split]
        exact lit
  · rintro ⟨cell, set, lit⟩
    obtain ⟨before, after, split⟩ := List.append_of_mem (Sprite.mem_litDots_iff.mpr set)
    refine .inr ⟨before, cell, after, split, ?_⟩
    rw [Sprite.parity_count_before x y split]
    exact lit

section

variable (screen : Screen) {sprite : Sprite} (short : sprite.length ≤ 32) (x y : Nat)

include short

theorem collided_draw_iff_of_short :
    (screen.draw sprite x y).collided = true ↔
      ∃ cell ∈ sprite.litCells, screen.dot (x + cell.1) (y + cell.2) = 1 := by
  rw [collided_draw_iff]
  refine exists_congr fun cell => and_congr_right fun set => ?_
  have landed : cell ∈ sprite.landing x y (x + cell.1) (y + cell.2) :=
    Sprite.mem_landing.mpr ⟨(Sprite.mem_litCells.mp set).1, rfl⟩
  -- The bit itself is all that lands there, and it is not above itself.
  have alone : (sprite.landing x y (x + cell.1) (y + cell.2)).filter (·.2 < cell.2) = ∅ := by
    rw [Sprite.landing_eq_singleton short landed, Finset.filter_singleton,
      if_neg (Nat.lt_irrefl cell.2)]
  simp [alone]

/-- A drawing that flips no dot twice collides where it erases a dot. -/
theorem collided_draw_iff_erased :
    (screen.draw sprite x y).collided = true ↔ ∃ column row,
      screen.dot column row = 1 ∧ (screen.draw sprite x y).screen.dot column row = 0 := by
  rw [collided_draw_iff_of_short screen short x y]
  constructor
  · rintro ⟨cell, set, lit⟩
    refine ⟨x + cell.1, y + cell.2, lit, ?_⟩
    rw [dot_draw_of_mem_litCells short set, lit]
    rfl
  · rintro ⟨column, row, lit, erased⟩
    rcases (sprite.landing x y column row).eq_empty_or_nonempty with missed | ⟨cell, landed⟩
    · rw [dot_draw_of_missed missed, lit] at erased
      exact absurd erased (by decide)
    · rw [dot_draw_of_mem short landed, lit] at erased
      obtain ⟨within, here⟩ := Sprite.mem_landing.mp landed
      have bit : sprite.bit cell.1 cell.2 = true := by
        apply Decidable.byContradiction
        intro clear
        rw [if_neg clear] at erased
        exact absurd erased (by decide)
      exact ⟨cell, Sprite.mem_litCells.mpr ⟨within, bit⟩, (congrArg screen.get here).trans lit⟩

end

/-- What a drawing of a sprite at column `x` and row `y` makes of a screen. -/
structure Overlaid (screen : Screen) (sprite : Sprite) (x y : Nat) (drawing : Drawing) :
    Prop where
  dot_eq : ∀ column row, drawing.screen.dot column row =
    screen.dot column row ^^^ sprite.shade (sprite.landing x y column row)
  testBit_eq : ∀ column row place, 1 ≤ place →
    (drawing.screen.dot column row).toNat.testBit place =
      (screen.dot column row).toNat.testBit place
  dot_eq_of_missed : ∀ column row, sprite.landing x y column row = ∅ →
    drawing.screen.dot column row = screen.dot column row
  /-- Only the bits of the rows above have changed the dot of a bit before it is flipped. -/
  collided_iff : drawing.collided = true ↔ ∃ cell ∈ sprite.litCells,
    screen.dot (x + cell.1) (y + cell.2) ^^^ sprite.shade
      ((sprite.landing x y (x + cell.1) (y + cell.2)).filter (·.2 < cell.2)) = 1
  card_landing_le : sprite.length ≤ 32 →
    ∀ column row, (sprite.landing x y column row).card ≤ 1
  collided_iff_of_short : sprite.length ≤ 32 →
    (drawing.collided = true ↔
      ∃ cell ∈ sprite.litCells, screen.dot (x + cell.1) (y + cell.2) = 1)

theorem overlaid_draw (screen : Screen) (sprite : Sprite) (x y : Nat) :
    screen.Overlaid sprite x y (screen.draw sprite x y) where
  dot_eq := screen.dot_draw sprite x y
  testBit_eq column row place high := by
    rw [dot_draw, UInt8.toNat_xor, Nat.testBit_xor, Sprite.shade, testBit_parity _ high,
      Bool.xor_false]
  dot_eq_of_missed _ _ missed := dot_draw_of_missed missed
  collided_iff := screen.collided_draw_iff sprite x y
  card_landing_le short := Sprite.card_landing_le short x y
  collided_iff_of_short short := screen.collided_draw_iff_of_short short x y

/-- Two rows over the corner, of which the second meets a dot on the other side; and as many rows
as the screen has and one more, of which the last meets the first. -/
theorem overlaid_draw_wrapping :
    let screen : Screen := blank.set (place 0 0) 1
    let corner : Sprite := [0xC0, 0x40]
    let column : Sprite := List.replicate 33 0x80
    (corner.length ≤ 32 ∧ screen.Overlaid corner 63 31 (screen.draw corner 63 31) ∧
      (screen.draw corner 63 31).collided = true) ∧
    (blank.Overlaid column 5 7 (blank.draw column 5 7) ∧
      (blank.draw column 5 7).collided = true) := by
  intro screen corner column
  have short : corner.length ≤ 32 := by decide
  have cornerDrawn := screen.overlaid_draw corner 63 31
  have columnDrawn := blank.overlaid_draw column 5 7
  refine ⟨⟨short, cornerDrawn, ?_⟩, columnDrawn, ?_⟩
  · rw [cornerDrawn.collided_iff_of_short short]
    exact ⟨(1, 1), by decide +kernel⟩
  · rw [columnDrawn.collided_iff]
    exact ⟨(0, 32), by decide +kernel⟩

end Screen

end Chip8
