import Chip8.Proofs.Disassembly
import Chip8.Proofs.Memory
import Chip8.Proofs.Text.Lines

/-!
# Reading a disassembly back

The printed text of a disassembly splits into its lines again, because no mnemonic holds a line
feed. Of a line, the address ends at the first blank and the word takes up the four characters after
it, whatever the mnemonic is, so the text tells every word of the image. It tells the image itself
but for one thing: an odd length looks as if a zero byte completed it.
-/

namespace Chip8

theorem Hex.printable_capitals (width number : Nat) : Printable (capitals width number) := by
  intro char listed
  obtain ⟨digit, single, rfl⟩ := digitChar_of_mem_capitals listed
  exact (by decide : ∀ digit < 16, ' ' ≤ (Nat.digitChar digit).toUpper) digit single

theorem Hex.printable_marked (width number : Nat) : Printable ("0x" ++ capitals width number) :=
  have mark : Printable "0x" := by decide
  mark.append (printable_capitals width number)

namespace Operand

theorem printable_text (operand : Operand) : Printable operand.text := by
  cases operand with
  | number value =>
      intro char listed
      have digit := Char.isDigit_iff_toNat.mp (isDigit_of_mem_number listed)
      exact Nat.le_trans (by decide) digit.1
  | address target => exact Hex.printable_marked 3 target
  | register name => decide +revert
  | index | atIndex | delay | sound | key | decimal => decide

theorem printable_listText (operands : List Operand) : Printable (listText operands) := by
  have blank : Printable " " := by decide
  have comma : Printable "," := by decide
  fun_induction listText operands with
  | case1 => decide
  | case2 operand => exact blank.append operand.printable_text
  | case3 operand rest _ ih =>
      exact ((blank.append operand.printable_text).append comma).append ih

end Operand

namespace Instruction

theorem printable_name (instruction : Instruction) : Printable instruction.assembly.name := by
  cases instruction with
  | combine combination =>
      simp only [assembly]
      cases combination <;> decide
  | _ =>
      simp only [assembly]
      decide

theorem printable_mnemonic (instruction : Instruction) : Printable instruction.mnemonic :=
  instruction.printable_name.append (Operand.printable_listText _)

end Instruction

namespace DisassemblyLine

/-- The characters give an address and the number of a word before they say anything else. -/
def Gives (characters : List Char) (address number : Nat) : Prop :=
  ∃ front back meaning, Hex.FourDigitsOrMore front address ∧ Hex.FourDigits back number ∧
    characters = ['0', 'x'] ++ front ++ [' '] ++ back ++ [' ', ' '] ++ meaning

/-- Reads the address up to the first blank and the word in the four characters after it. -/
def read (characters : List Char) : DisassemblyLine :=
  let front := characters.takeWhile (· != ' ')
  ⟨Hex.value (front.drop 2),
    UInt16.ofNat (Hex.value ((characters.drop (front.length + 1)).take 4))⟩

theorem exists_meaning (line : DisassemblyLine) : ∃ meaning, Printable meaning ∧
    line.text = "0x" ++ Hex.capitals 4 line.address ++ " " ++ Hex.capitals 4 line.word.toNat ++
      "  " ++ meaning := by
  cases decoded : Instruction.decode? line.word with
  | some instruction =>
      refine ⟨instruction.mnemonic, instruction.printable_mnemonic, ?_⟩
      simp only [text, decoded]
  | none =>
      refine ⟨"0x" ++ Hex.capitals 4 line.word.toNat, Hex.printable_marked _ _, ?_⟩
      simp only [text, decoded]

theorem printable_text (line : DisassemblyLine) : Printable line.text := by
  obtain ⟨meaning, printable, written⟩ := line.exists_meaning
  have address := Hex.printable_marked 4 line.address
  have word := Hex.printable_capitals 4 line.word.toNat
  have blank : Printable " " := by decide
  have gap : Printable "  " := by decide
  rw [written]
  exact (((address.append blank).append word).append gap).append printable

theorem gives_text (line : DisassemblyLine) :
    Gives line.text.toList line.address line.word.toNat := by
  obtain ⟨meaning, _, written⟩ := line.exists_meaning
  refine ⟨_, _, meaning.toList, Hex.fourDigitsOrMore_capitals line.address,
    Hex.fourDigits_capitals line.word.toNat_lt, ?_⟩
  simp only [written, String.toList_append]
  rfl

theorem read_append {front : List Char} (free : ' ' ∉ front) (rest : List Char) :
    read (front ++ ' ' :: rest) =
      ⟨Hex.value (front.drop 2), UInt16.ofNat (Hex.value (rest.take 4))⟩ := by
  have before : (front ++ ' ' :: rest).takeWhile (· != ' ') = front :=
    takeWhile_append_of_notMem free fun _ first => (Option.some.inj first).symm
  have after : (front ++ ' ' :: rest).drop (front.length + 1) = rest := by
    rw [← List.drop_drop, List.drop_left, List.drop_one, List.tail_cons]
  rw [read, before, after]

/-- A line gives no more than one address and one word, whatever stands behind them. -/
theorem Gives.read_eq {characters : List Char} {address number : Nat}
    (gives : Gives characters address number) :
    read characters = ⟨address, UInt16.ofNat number⟩ := by
  obtain ⟨front, back, meaning, digits, word, rfl⟩ := gives
  -- the blank after the address is the first one, since neither `0x` nor a digit is a blank
  have free : ' ' ∉ ['0', 'x'] ++ front := by
    intro listed
    rcases List.mem_append.mp listed with mark | digit
    · exact absurd mark (by decide)
    · exact absurd (digits.capital _ digit) (by decide)
  have parts : ['0', 'x'] ++ front ++ [' '] ++ back ++ [' ', ' '] ++ meaning =
      (['0', 'x'] ++ front) ++ ' ' :: (back ++ ([' ', ' '] ++ meaning)) := by
    simp only [List.append_assoc, List.cons_append, List.nil_append]
  have unmarked : (['0', 'x'] ++ front).drop 2 = front := rfl
  rw [parts, read_append free, unmarked, digits.value_eq, List.take_left' word.length_eq,
    word.value_eq]

@[simp]
theorem read_text (line : DisassemblyLine) : read line.text.toList = line := by
  rw [line.gives_text.read_eq, UInt16.ofNat_toNat]

example : read "0x10000 FF00  0xFF00".toList = ⟨0x10000, 0xFF00⟩ := by decide +kernel

end DisassemblyLine

namespace Image

/-- The image with the zero byte that completes an odd length. -/
def padded (image : Image) : Image :=
  image ++ List.replicate (image.length % 2) 0

/-- Reads the words in the lines of a text and splits them into bytes. -/
def ofDisassembly (text : String) : Image :=
  Program.image ((lines text).map fun line => (DisassemblyLine.read line).word)

/-- What a text tells of an image that it is the disassembly of. -/
structure Disassembled (image : Image) (text : String) : Prop where
  ended : EndsLines text
  lines_length : (lines text).length = (image.length + 1) / 2
  line_gives : ∀ place line, (lines text)[place]? = some line →
    ∃ high, image[2 * place]? = some high ∧ DisassemblyLine.Gives line (512 + 2 * place)
      (high.toNat * 256 + (image[2 * place + 1]?.getD 0).toNat)
  ofDisassembly_eq : ofDisassembly text = image.padded

theorem words_eq_iff (image other : Image) :
    other.words = image.words ↔ other.padded = image.padded := by
  rw [padded, padded, ← image.image_words, ← other.image_words]
  constructor
  · exact congrArg Program.image
  · intro same
    rw [← Program.words_image other.words, same, Program.words_image]

@[simp]
theorem map_word_disassembly (image : Image) :
    image.disassembly.map DisassemblyLine.word = image.words := by
  refine List.ext_getElem? fun place => ?_
  rw [List.getElem?_map, getElem?_disassembly, Option.map_map]
  exact Option.map_id_apply

/-! ## The text of a disassembly -/

/-- The lines of a disassembly, ended by a line feed each. -/
def disassemblyText (image : Image) : String :=
  String.join (image.disassembly.map fun line => line.text ++ "\n")

theorem isLine_of_mem_disassembly (image : Image) :
    ∀ text ∈ image.disassembly.map fun line => line.text ++ "\n", IsLine text := by
  intro text listed
  obtain ⟨line, _, rfl⟩ := List.mem_map.mp listed
  exact line.printable_text.isLine

@[simp]
theorem lines_disassemblyText (image : Image) :
    lines image.disassemblyText = image.disassembly.map fun line => line.text.toList := by
  rw [disassemblyText, lines_join image.isLine_of_mem_disassembly, List.map_map]
  refine List.map_congr_left fun line _ => ?_
  rw [Function.comp_apply, String.toList_append]
  exact List.dropLast_concat

theorem ofDisassembly_disassemblyText (image : Image) :
    ofDisassembly image.disassemblyText = image.padded := by
  have words : image.disassembly.map
      ((fun line => (DisassemblyLine.read line).word) ∘ fun line => line.text.toList) =
        image.words := by
    rw [← image.map_word_disassembly]
    refine List.map_congr_left fun line _ => ?_
    rw [Function.comp_apply, line.read_text]
  rw [ofDisassembly, lines_disassemblyText, List.map_map, words, image_words, padded]

theorem disassembled_disassemblyText (image : Image) :
    image.Disassembled image.disassemblyText where
  ended := endsLines_join image.isLine_of_mem_disassembly
  lines_length := by
    simp [disassembly]
  line_gives place line listed := by
    rw [lines_disassemblyText, List.getElem?_map, getElem?_disassembly, getElem?_words,
      Option.map_map, Option.map_map] at listed
    obtain ⟨high, found, rfl⟩ := Option.map_eq_some_iff.mp listed
    refine ⟨high, found, ?_⟩
    rw [← Word.toNat_ofBytes]
    exact DisassemblyLine.gives_text _
  ofDisassembly_eq := image.ofDisassembly_disassemblyText

theorem disassemblyText_eq_iff (image other : Image) :
    other.disassemblyText = image.disassemblyText ↔ other.padded = image.padded := by
  constructor
  · intro same
    rw [← ofDisassembly_disassemblyText other, same, ofDisassembly_disassemblyText]
  · intro same
    have words := (image.words_eq_iff other).mpr same
    rw [disassemblyText, disassembly, words, disassemblyText, disassembly]

end Image

/-- All that is printed, each line ended by a line feed. -/
def Report.text (threshold : Threshold) (report : Report) : String :=
  String.join ((report.lines threshold).map fun line => line ++ "\n")

theorem Outcome.text_disassemble (threshold : Threshold) (entropy : Random.CipherKey)
    (file : String) (image : Image) (milliseconds : String) :
    ((ofInvocation threshold entropy (.disassemble file) (.ok image)).report milliseconds).text
      threshold = image.disassemblyText := by
  rw [Report.text, lines_disassemble, List.map_map]
  rfl

namespace Image

/-- What is printed for an image of any length tells its words one by one, and two images are
printed alike just if they are the same once a zero byte completes an odd length. -/
theorem disassembly_loses_nothing (image : Image) (threshold : Threshold)
    (entropy : Random.CipherKey) (file milliseconds : String) :
    let printed := fun (file : String) (image : Image) =>
      ((Outcome.ofInvocation threshold entropy (.disassemble file) (.ok image)).report
        milliseconds).text threshold
    image.Disassembled (printed file image) ∧
      ∀ (otherFile : String) (other : Image),
        printed otherFile other = printed file image ↔ other.padded = image.padded := by
  intro printed
  have shown (file : String) (image : Image) : printed file image = image.disassemblyText :=
    Outcome.text_disassemble threshold entropy file image milliseconds
  rw [shown]
  refine ⟨image.disassembled_disassemblyText, fun otherFile other => ?_⟩
  rw [shown]
  exact image.disassemblyText_eq_iff other

/-- A zero byte at an odd end makes no difference but one at an even end does, and the last line of
a large image, which has an odd length too, gives an address of five digits. -/
theorem disassembly_loses_nothing_past_four_digits :
    let printed := fun (file : String) (image : Image) =>
      ((Outcome.ofInvocation .standard (Vector.replicate 8 0) (.disassemble file)
        (.ok image)).report "0").text .standard
    let sprite : Image := [0x60, 0x05, 0xFF]
    let large : Image := List.replicate 65025 0x07
    printed "a.ch8" sprite = "0x0200 6005  LD v0, 5\n0x0202 FF00  0xFF00\n" ∧
      printed "b.ch8" [0x60, 0x05, 0xFF, 0x00] = printed "a.ch8" sprite ∧
      printed "b.ch8" [0x60, 0x05, 0xFF, 0x00, 0x00] ≠ printed "a.ch8" sprite ∧
      ∃ line, (lines (printed "c.ch8" large))[32512]? = some line ∧
        DisassemblyLine.Gives line 0x10000 0x0700 := by
  intro printed sprite large
  have text : printed "a.ch8" sprite = "0x0200 6005  LD v0, 5\n0x0202 FF00  0xFF00\n" := by
    decide +kernel
  obtain ⟨_, alike⟩ :=
    sprite.disassembly_loses_nothing .standard (Vector.replicate 8 0) "a.ch8" "0"
  obtain ⟨told, _⟩ :=
    large.disassembly_loses_nothing .standard (Vector.replicate 8 0) "c.ch8" "0"
  refine ⟨text, (alike "b.ch8" _).mpr (by decide), fun same => ?_, ?_⟩
  · exact absurd ((alike "b.ch8" _).mp same) (by decide)
  · have within : 32512 < (lines (printed "c.ch8" large)).length := by
      rw [told.lines_length, List.length_replicate]
      decide
    have found := List.getElem?_eq_getElem within
    obtain ⟨high, here, gives⟩ := told.line_gives 32512 _ found
    have last : large[2 * 32512]? = some 0x07 := List.getElem?_replicate_of_lt (by decide)
    have after : large[2 * 32512 + 1]? = none := by
      rw [List.getElem?_eq_none]
      exact Nat.le_of_eq List.length_replicate
    cases here.symm.trans last
    rw [after] at gives
    exact ⟨_, found, gives⟩

end Image

end Chip8
