import Chip8.Proofs.Drawing.Rotation
import Chip8.Proofs.Machine.Faults
import Chip8.Proofs.Memory
import Chip8.Proofs.Text.Hex
import Chip8.Proofs.Text.Lines

/-!
# Pictures and listings

The picture of a screen has a character for each dot, at the column and the line of the dot, and a
binary screen can be told from it. A listing has a line for each word of the program area as far as
it goes, with the address and the word in four digits each, and a whole listing can be loaded again.
-/

namespace Chip8

theorem getElem?_map_finRange {α : Type} {size : Nat} (entry : Fin size → α) {place : Nat}
    (inside : place < size) :
    ((List.finRange size).map entry)[place]? = some (entry ⟨place, inside⟩) := by
  have listed : place < (List.finRange size).length := by
    rw [List.length_finRange]
    exact inside
  rw [List.getElem?_map, List.getElem?_eq_getElem listed, List.getElem_finRange]
  rfl

namespace Screen

def mark (lit : Prop) [Decidable lit] : Char :=
  if lit then '#' else '.'

/-- What a picture of the screen shows. The cells of the screen are numbered row by row. -/
structure Pictured (screen : Screen) (text : String) : Prop where
  ended : EndsLines text
  lines_length : (lines text).length = 32
  line_length : ∀ line ∈ lines text, line.length = 64
  charAt?_cell : ∀ column < 64, ∀ row < 32, charAt? text column row =
    some (mark (screen[column + 64 * row]? = some 1))
  charAt?_dot : ∀ column row, charAt? text (column % 64) (row % 32) =
    some (mark (screen.dot column row = 1))

theorem toList_pictureLine (screen : Screen) (row : Fin 32) :
    (screen.pictureLine row ++ "\n").toList =
      (List.finRange 64).map (fun column : Fin 64 =>
        if screen.dot column row = 0 then '.' else '#') ++ ['\n'] := by
  rw [String.toList_append, pictureLine, String.toList_ofList]
  rfl

theorem isLine_pictureLine (screen : Screen) (row : Fin 32) :
    IsLine (screen.pictureLine row ++ "\n") := by
  refine ⟨_, screen.toList_pictureLine row, fun listed => ?_⟩
  obtain ⟨column, _, shown⟩ := List.mem_map.mp listed
  split at shown
  · exact absurd shown (by decide)
  · exact absurd shown (by decide)

theorem isLine_of_mem_picture (screen : Screen) :
    ∀ text ∈ (List.finRange 32).map fun row => screen.pictureLine row ++ "\n", IsLine text := by
  intro text listed
  obtain ⟨row, _, rfl⟩ := List.mem_map.mp listed
  exact screen.isLine_pictureLine row

@[simp]
theorem lines_picture (screen : Screen) :
    lines screen.picture = (List.finRange 32).map fun row : Fin 32 =>
      (List.finRange 64).map fun column : Fin 64 =>
        if screen.dot column row = 0 then '.' else '#' := by
  rw [picture, lines_join screen.isLine_of_mem_picture, List.map_map]
  refine List.map_congr_left fun row _ => ?_
  rw [Function.comp_apply, toList_pictureLine, List.dropLast_concat]

theorem Binary.ite_eq_mark {screen : Screen} (binary : screen.Binary) (column row : Nat) :
    (if screen.dot column row = 0 then '.' else '#') = mark (screen.dot column row = 1) := by
  rcases binary.dot_eq column row with dark | lit
  · rw [dark]
    rfl
  · rw [lit]
    rfl

theorem Binary.charAt?_picture {screen : Screen} (binary : screen.Binary) {column row : Nat}
    (across : column < 64) (down : row < 32) :
    charAt? screen.picture column row = some (mark (screen.dot column row = 1)) := by
  rw [charAt?, lines_picture, getElem?_map_finRange _ down, Option.bind_some,
    getElem?_map_finRange _ across]
  exact congrArg some (binary.ite_eq_mark column row)

theorem getElem?_cell (screen : Screen) {column row : Nat} (across : column < 64)
    (down : row < 32) : screen[column + 64 * row]? = some (screen.dot column row) := by
  have number : (place column row).val = column + 64 * row := by
    simp only [place]
    omega
  rw [← number]
  exact Vector.getElem?_eq_getElem (place column row).isLt

theorem pictured_picture {screen : Screen} (binary : screen.Binary) :
    screen.Pictured screen.picture where
  ended := endsLines_join screen.isLine_of_mem_picture
  lines_length := by simp
  line_length line listed := by
    rw [lines_picture] at listed
    obtain ⟨row, _, rfl⟩ := List.mem_map.mp listed
    rw [List.length_map, List.length_finRange]
  charAt?_cell column across row down := by
    rw [binary.charAt?_picture across down, screen.getElem?_cell across down]
    simp only [Option.some.injEq]
  charAt?_dot column row := by
    have across : column % 64 < 64 := Nat.mod_lt _ (by decide)
    have down : row % 32 < 32 := Nat.mod_lt _ (by decide)
    have same : screen.dot (column % 64) (row % 32) = screen.dot column row :=
      screen.dot_congr (Nat.mod_mod _ _) (Nat.mod_mod _ _)
    rw [← same]
    exact binary.charAt?_picture across down

theorem Pictured.unique {first second : Screen} {text : String} (binary : first.Binary)
    (binaryOther : second.Binary) (pictured : first.Pictured text)
    (picturedOther : second.Pictured text) : first = second := by
  refine ext_dot fun column row => ?_
  have same := (pictured.charAt?_dot column row).symm.trans (picturedOther.charAt?_dot column row)
  rcases binary.dot_eq column row with dark | lit <;>
    rcases binaryOther.dot_eq column row with darkOther | litOther
  · exact dark.trans darkOther.symm
  · rw [dark, litOther] at same
    exact absurd same (by decide)
  · rw [lit, darkOther] at same
    exact absurd same (by decide)
  · exact lit.trans litOther.symm

end Screen

/-! ## Listings -/

/-- The words that the lines of a listing end with. -/
def wordsListed (text : String) : Program :=
  (lines text).map fun line => UInt16.ofNat (Hex.value (line.drop 6))

namespace Memory

/-- A line with an address and the number that two bytes make there. -/
def Shows (memory : Memory) (address : Nat) (line : List Char) : Prop :=
  ∃ high low front back, memory[address]? = some high ∧ memory[address + 1]? = some low ∧
    Hex.FourDigits front address ∧ Hex.FourDigits back (high.toNat * 256 + low.toNat) ∧
    line = front ++ [':', ' '] ++ back

/-- What a listing of the first words of the program area shows. -/
structure Listed (memory : Memory) (count : Nat) (text : String) : Prop where
  ended : EndsLines text
  lines_length : (lines text).length = min count 1792
  line_shows : ∀ place line, (lines text)[place]? = some line →
    memory.Shows (512 + 2 * place) line

theorem Shows.notMem {memory : Memory} {address : Nat} {line : List Char}
    (displays : memory.Shows address line) : '\n' ∉ line := by
  obtain ⟨high, low, front, back, _, _, address, word, rfl⟩ := displays
  have outside : '\n' ∉ "0123456789ABCDEF".toList := by decide
  rw [List.mem_append, List.mem_append]
  rintro ((before | between) | after)
  · exact address.notMem outside before
  · exact absurd between (by decide)
  · exact word.notMem outside after

theorem exists_line (memory : Memory) (place : Fin programCapacity) :
    ∃ line, (memory.line place).toList = line ++ ['\n'] ∧
      memory.Shows (512 + 2 * place.val) line := by
  have inside : 512 + 2 * place.val + 1 < 4096 := by
    have := place.isLt
    simp only [programCapacity, programStart] at this
    omega
  have high : 512 + 2 * place.val < 4096 := Nat.lt_of_succ_lt inside
  let word := Word.ofBytes memory[512 + 2 * place.val] memory[512 + 2 * place.val + 1]
  have written : memory.line place = Hex.capitals 4 (512 + 2 * place.val) ++ ": " ++
      Hex.capitals 4 word.toNat ++ "\n" := rfl
  have front := Hex.fourDigits_capitals (Nat.lt_trans high (by decide))
  have back := Hex.fourDigits_capitals word.toNat_lt
  rw [Word.toNat_ofBytes] at back
  refine ⟨_, ?_, _, _, _, _, Vector.getElem?_eq_getElem high, Vector.getElem?_eq_getElem inside,
    front, back, rfl⟩
  rw [written, String.toList_append, String.toList_append, String.toList_append,
    Word.toNat_ofBytes]
  rfl

theorem listed_listing (memory : Memory) (count : Nat) :
    memory.Listed count (memory.listing count) := by
  have single : ∀ text ∈ ((List.finRange programCapacity).take count).map memory.line,
      IsLine text := by
    intro text listed
    obtain ⟨place, _, rfl⟩ := List.mem_map.mp listed
    obtain ⟨line, ended, displays⟩ := memory.exists_line place
    exact ⟨line, ended, displays.notMem⟩
  refine ⟨endsLines_join single, ?_, fun place line listed => ?_⟩
  · rw [listing, lines_join single, List.length_map, List.length_map, List.length_take,
      List.length_finRange]
    rfl
  · rw [listing, lines_join single, List.map_map, List.getElem?_map] at listed
    obtain ⟨entry, found, rfl⟩ := Option.map_eq_some_iff.mp listed
    obtain ⟨within, same⟩ := List.getElem?_eq_some_iff.mp found
    rw [List.getElem_take, List.getElem_finRange] at same
    obtain rfl : place = entry.val := congrArg Fin.val same
    obtain ⟨line, ended, displays⟩ := memory.exists_line entry
    have shown : (memory.line entry).toList.dropLast = line := by
      rw [ended, List.dropLast_concat]
    rw [Function.comp_apply, shown]
    exact displays

theorem Shows.word_eq {memory : Memory} {address : Nat} {line : List Char}
    (displays : memory.Shows address line) :
    ∃ high low, memory[address]? = some high ∧ memory[address + 1]? = some low ∧
      UInt16.ofNat (Hex.value (line.drop 6)) = Word.ofBytes high low := by
  obtain ⟨high, low, front, back, here, next, address, word, rfl⟩ := displays
  have behind : (front ++ [':', ' '] ++ back).drop 6 = back := by
    have before : (front ++ [':', ' ']).length = 6 := by
      rw [List.length_append, address.length_eq]
      rfl
    exact List.drop_left' before
  refine ⟨high, low, here, next, ?_⟩
  rw [behind, word.value_eq]
  rfl

theorem Listed.words_eq {memory : Memory} {count : Nat} {text : String}
    (listed : memory.Listed count text) {place : Nat} (within : place < min count 1792) :
    ∃ high low, memory[512 + 2 * place]? = some high ∧ memory[512 + 2 * place + 1]? = some low ∧
      (wordsListed text)[place]? = some (Word.ofBytes high low) := by
  rw [← listed.lines_length] at within
  have found := List.getElem?_eq_getElem within
  obtain ⟨high, low, here, next, word⟩ := (listed.line_shows place _ found).word_eq
  refine ⟨high, low, here, next, ?_⟩
  rw [wordsListed, List.getElem?_map, found, Option.map_some, word]

theorem Listed.length_words {memory : Memory} {count : Nat} {text : String}
    (listed : memory.Listed count text) : (wordsListed text).length = min count 1792 := by
  rw [wordsListed, List.length_map, listed.lines_length]

theorem Listed.length_words_le {memory : Memory} {count : Nat} {text : String}
    (listed : memory.Listed count text) : (wordsListed text).length ≤ 1792 := by
  rw [listed.length_words]
  exact Nat.min_le_right _ _

/-- A whole listing tells all bytes of the program area. -/
theorem Listed.getElem?_holding {memory : Memory} {count : Nat} {text : String}
    (listed : memory.Listed count text) (whole : 1792 ≤ count) {address : Nat}
    (program : 512 ≤ address) : (holding (wordsListed text))[address]? = memory[address]? := by
  rcases Nat.lt_or_ge address 4096 with inside | beyond
  · have holds := holds_holding listed.length_words_le
    have within : (address - 512) / 2 < min count 1792 := by omega
    obtain ⟨high, low, here, next, word⟩ := listed.words_eq within
    have even := holds.highByte_eq _ _ word
    have odd := holds.lowByte_eq _ _ word
    rw [Word.highByte_ofBytes, ← here] at even
    rw [Word.lowByte_ofBytes, ← next] at odd
    -- the program area starts at an even address, so the high bytes are at the even ones
    rcases Nat.mod_two_eq_zero_or_one (address - 512) with parity | parity
    · have number : 512 + 2 * ((address - 512) / 2) = address := by omega
      rw [number] at even
      exact even
    · have number : 513 + 2 * ((address - 512) / 2) = address := by omega
      have numberNext : 512 + 2 * ((address - 512) / 2) + 1 = address := by omega
      rw [number, numberNext] at odd
      exact odd
  · rw [Vector.getElem?_eq_none beyond, Vector.getElem?_eq_none beyond]

end Memory

namespace Machine

theorem load_listing (machine other : Machine Slots) {count : Nat} (whole : 1792 ≤ count) :
    let loaded := other.load (wordsListed (machine.memory.listing count))
    loaded.answer = .ok () ∧ ∀ address, 512 ≤ address →
      loaded.machine.memory[address]? = machine.memory[address]? := by
  have listed := machine.memory.listed_listing count
  rw [load_of_le listed.length_words_le]
  exact ⟨rfl, fun address program => listed.getElem?_holding whole program⟩

/-- A picture tells the dots of a reachable machine and a listing the bytes of its program area. -/
theorem views_lose_nothing {machine : Machine Slots} (reachable : machine.Reachable) :
    machine.screen.Pictured machine.screen.picture ∧
    (∀ other : Machine Slots, other.Reachable →
      (other.screen.picture = machine.screen.picture ↔ other.screen = machine.screen)) ∧
    (∀ count, machine.memory.Listed count (machine.memory.listing count)) ∧
    ∀ count, 1792 ≤ count → ∀ other : Machine Slots,
      let loaded := other.load (wordsListed (machine.memory.listing count))
      loaded.answer = .ok () ∧ ∀ address, 512 ≤ address →
        loaded.machine.memory[address]? = machine.memory[address]? := by
  have binary := reachable.sound.screen
  have pictured := Screen.pictured_picture binary
  refine ⟨pictured, fun other reachableOther => ?_, machine.memory.listed_listing, ?_⟩
  · have binaryOther := reachableOther.sound.screen
    constructor
    · intro same
      have picturedOther := Screen.pictured_picture binaryOther
      rw [same] at picturedOther
      exact picturedOther.unique binaryOther binary pictured
    · exact congrArg Screen.picture
  · intro count whole other
    exact machine.load_listing other whole

/-- A machine that has drawn the byte `A2`, the first of its program, and one just switched on. -/
theorem views_lose_nothing_of_sprite :
    let blank : Machine Slots := powerOn {} (Vector.replicate 8 0)
    let drawn := blank.performAll [.load [0xA200, 0xD121], .run 2]
    drawn.Reachable ∧ blank.Reachable ∧
    drawn.screen.dot 66 32 = 1 ∧ charAt? drawn.screen.picture 2 0 = some '#' ∧
    blank.screen.picture ≠ drawn.screen.picture ∧
    (blank.load (wordsListed (drawn.memory.listing 2000))).answer = .ok () ∧
    (blank.load (wordsListed (drawn.memory.listing 2000))).machine.memory[512]? = some 0xA2 := by
  intro blank drawn
  have accepted : ofConfig {} (Vector.replicate 8 0) = .ok blank := rfl
  have start : blank.Reachable := .powerOn accepted
  have reachable : drawn.Reachable := start.performAll _
  obtain ⟨lit, dark, first⟩ : drawn.screen.dot 66 32 = 1 ∧ blank.screen.dot 66 32 = 0 ∧
      drawn.memory[512]? = some 0xA2 := by
    decide +kernel
  obtain ⟨pictured, told, _, reloads⟩ := views_lose_nothing reachable
  obtain ⟨answer, same⟩ := reloads 2000 (by decide) blank
  refine ⟨reachable, start, lit, ?_, fun equal => ?_, answer, ?_⟩
  · have shown := pictured.charAt?_dot 66 32
    rw [lit] at shown
    exact shown
  · have screens := (told blank start).mp equal
    rw [screens, lit] at dark
    exact absurd dark (by decide)
  · exact (same 512 (by decide)).trans first

end Machine

end Chip8
