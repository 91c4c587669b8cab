import Mathlib.Control.Monad.Basic
import Chip8.Command.Report
import Chip8.Proofs.Instruction.Mnemonics
import Chip8.Proofs.Machine.Footprint

/-!
# Listings of running programs

As long as a program stores nothing in memory, memory holds the image that was loaded, and a step
from an even place of the image carries out the word that the listing has there. The line gives the
address and the word, and then the mnemonic that the step tells of, or the word once more exactly if
the step refuses it.
-/

namespace Chip8

@[simp]
theorem Image.getElem?_disassembly (image : Image) (place : Nat) :
    image.disassembly[place]? = image.words[place]?.map fun word => ⟨512 + 2 * place, word⟩ := by
  rw [disassembly, List.getElem?_mapIdx]
  rfl

theorem Outcome.lines_disassemble (threshold : Threshold) (entropy : Random.CipherKey)
    (file : String) (image : Image) (milliseconds : String) :
    ((ofInvocation threshold entropy (.disassemble file) (.ok image)).report milliseconds).lines
      threshold = image.disassembly.map DisassemblyLine.text := by
  simp [ofInvocation, report, Report.lines, List.filterMap_map, Function.comp_def, Output.line?]

theorem mem_of_suffix {mark : Char} {before after last : List Char}
    (suffix : last <:+ before ++ mark :: after) (longer : after.length < last.length) :
    mark ∈ last := by
  have reached : mark :: after <:+ last :=
    List.suffix_of_suffix_length_le (List.suffix_append before _) suffix longer
  exact reached.subset List.mem_cons_self

/-- A line that ends with the mnemonic of an instruction does not end with a word in full. -/
theorem Instruction.not_suffix_word (instruction : Instruction) (front : List Char) (word : Word) :
    ¬ ("0x" ++ Hex.capitals 4 word.toNat).toList <:+
      front ++ ' ' :: instruction.mnemonic.toList := by
  obtain ⟨before, last, letters, short⟩ := instruction.exists_last_word
  have digits := Hex.length_capitals (by decide : 0 < 4) word.toNat_lt
  have unmarked := Hex.notMem_capitals 4 word.toNat (by decide : ∀ digit < 16,
    (Nat.digitChar digit).toUpper ≠ ' ')
  rw [letters, ← List.append_assoc]
  intro suffix
  have blank := mem_of_suffix suffix (by
    rw [String.toList_append, List.length_append, digits]
    exact Nat.lt_of_le_of_lt short (by decide))
  rw [String.toList_append] at blank
  rcases List.mem_append.mp blank with mark | digit
  · exact absurd mark (by decide)
  · exact unmarked digit

namespace Occasion

variable {σ : Type} [CallStack σ]

/-- Whether the move carried out a store to its end. -/
def stores (occasion : Occasion σ) : Bool :=
  occasion.completed?.any Instruction.isStore

theorem memory_finish {occasion : Occasion σ} (quiet : occasion.stores = false)
    (loadsNothing : ∀ program, occasion.move = .load program →
      Memory.programCapacity < program.length) :
    occasion.finish.memory = occasion.machine.memory := by
  obtain ⟨machine, move⟩ := occasion
  cases move with
  | load program =>
      rw [finish, Machine.make, Machine.load_of_lt (loadsNothing program rfl)]
      rfl
  | tick | hold => rfl
  | step =>
      refine machine.agree_step .memory (by decide) fun instruction completed writes => ?_
      rw [stores, completed] at quiet
      cases instruction with
      | storeDecimal | storeRegisters => cases quiet
      | _ => cases writes

end Occasion

namespace Machine

variable {σ : Type} [CallStack σ]

theorem capacity_lt_of_mem_occasions {machine : Machine σ} {requests : List Request}
    (loadNothing : ∀ request ∈ requests, request.LoadsNothing) {occasion : Occasion σ}
    (listed : occasion ∈ machine.occasions requests) {program : Program}
    (loads : occasion.move = .load program) : Memory.programCapacity < program.length := by
  have moved : .load program ∈ machine.movesAll requests := by
    rw [← map_move_history machine (machine.movesAll requests), ← loads]
    exact List.mem_map_of_mem listed
  obtain ⟨request, asked, found⟩ := load_mem_movesAll moved
  exact loadNothing request asked program found

theorem memory_performAll {machine : Machine σ} {requests : List Request}
    (loadNothing : ∀ request ∈ requests, request.LoadsNothing)
    (quiet : ∀ occasion ∈ machine.occasions requests, occasion.stores = false) :
    (machine.performAll requests).memory = machine.memory := by
  refine performAll_preserves_of_occasions (P := fun later => later.memory = machine.memory)
    (fun occasion listed same => ?_) rfl
  rw [occasion.memory_finish (quiet occasion listed)
    fun _ => capacity_lt_of_mem_occasions loadNothing listed, same]

end Machine

theorem Memory.wordAt_holding {program : Program} (fits : program.length ≤ 1792) {place : Nat}
    {word : Word} (listed : program[place]? = some word) :
    (holding program).wordAt (512 + 2 * place) = .ok word := by
  have within := (List.getElem?_eq_some_iff.mp listed).1
  have after : 513 + 2 * place = 512 + 2 * place + 1 := by omega
  have high := (holds_holding fits).highByte_eq place word listed
  have low := (holds_holding fits).lowByte_eq place word listed
  rw [after] at low
  obtain ⟨_, high⟩ := Vector.getElem?_eq_some_iff.mp high
  obtain ⟨_, low⟩ := Vector.getElem?_eq_some_iff.mp low
  rw [wordAt_of_lt _ (by omega), high, low, Word.ofBytes_highByte_lowByte]

namespace Machine

variable {σ : Type} [CallStack σ]

/-- What a line of a listing says of a machine that is about to carry out the word on the line. -/
structure DescribedBy (machine : Machine σ) (line : String) (word : Word) : Prop where
  fetched : machine.memory.wordAt machine.counter = .ok word
  address_length : (Hex.capitals 4 machine.counter).length = 4
  word_length : (Hex.capitals 4 word.toNat).length = 4
  /-- The line ends with the text that the step tells first of all, if it decodes the word. -/
  line_eq : ∃ meaning, line = "0x" ++ Hex.capitals 4 machine.counter ++ " " ++
      Hex.capitals 4 word.toNat ++ "  " ++ meaning ∧
    ∀ instruction, Instruction.decode? word = some instruction →
      machine.step.events.head?.map Event.message =
        some (Hex.capitals 4 machine.counter ++ ": " ++ meaning)
  unsupported_iff : ("0x" ++ Hex.capitals 4 word.toNat).toList <:+ line.toList ↔
    machine.step.answer = .error (.unsupportedOpcode word)

section

variable {machine : Machine σ} {word : Word}
  (fetched : machine.memory.wordAt machine.counter = .ok word) (inside : machine.counter < 16 ^ 4)

include fetched inside

theorem describedBy_of_none (decoded : Instruction.decode? word = none) :
    machine.DescribedBy (DisassemblyLine.text ⟨machine.counter, word⟩) word := by
  have text : DisassemblyLine.text ⟨machine.counter, word⟩ =
      "0x" ++ Hex.capitals 4 machine.counter ++ " " ++ Hex.capitals 4 word.toNat ++ "  " ++
        ("0x" ++ Hex.capitals 4 word.toNat) := by
    simp only [DisassemblyLine.text, decoded]
  refine ⟨fetched, Hex.length_capitals (by decide) inside,
    Hex.length_capitals (by decide) word.toNat_lt, ⟨_, text, ?_⟩, iff_of_true ?_ ?_⟩
  · intro instruction other
    cases decoded.symm.trans other
  · have letters := congrArg String.toList text
    rw [String.toList_append] at letters
    exact ⟨_, letters.symm⟩
  · rw [answer_step_unsupported_iff fetched, ← Instruction.decode?_eq_none_iff]
    exact ⟨rfl, decoded⟩

theorem describedBy_of_some {instruction : Instruction}
    (decoded : Instruction.decode? word = some instruction) :
    machine.DescribedBy (DisassemblyLine.text ⟨machine.counter, word⟩) word := by
  have text : DisassemblyLine.text ⟨machine.counter, word⟩ =
      "0x" ++ Hex.capitals 4 machine.counter ++ " " ++ Hex.capitals 4 word.toNat ++ "  " ++
        instruction.mnemonic := by
    simp only [DisassemblyLine.text, decoded]
  have upcoming : machine.upcoming = .ok instruction := by
    simp only [Machine.upcoming, fetched, decoded]
  refine ⟨fetched, Hex.length_capitals (by decide) inside,
    Hex.length_capitals (by decide) word.toNat_lt, ⟨_, text, ?_⟩, iff_of_false ?_ ?_⟩
  · intro other same
    cases decoded.symm.trans same
    simp only [step, upcoming]
    rfl
  · have letters : (DisassemblyLine.text ⟨machine.counter, word⟩).toList =
        ("0x" ++ Hex.capitals 4 machine.counter ++ " " ++ Hex.capitals 4 word.toNat ++
          " ").toList ++ ' ' :: instruction.mnemonic.toList := by
      simp [text]
    rw [letters]
    exact instruction.not_suffix_word _ word
  · rw [answer_step_unsupported_iff fetched, ← Instruction.decode?_eq_none_iff, decoded]
    exact fun refused => Option.some_ne_none instruction refused.2

end

/-- Whatever else is asked of a machine that has loaded an image, while nothing is stored in memory
each step from an even place of the image is the one that the printed listing has there. -/
theorem listing_describes_steps {start : Machine σ} {image : Image} (fits : image.length ≤ 3584)
    {requests : List Request} (loadNothing : ∀ request ∈ requests, request.LoadsNothing)
    (quiet : ∀ occasion ∈ (start.loadImage image).machine.occasions requests,
      occasion.stores = false)
    (threshold : Threshold) (entropy : Random.CipherKey) (file milliseconds : String) :
    let machine := (start.loadImage image).machine.performAll requests
    let outcome := Outcome.ofInvocation threshold entropy (.disassemble file) (.ok image)
    let listing := (outcome.report milliseconds).lines threshold
    ∀ place, machine.counter = 512 + 2 * place → place < (image.length + 1) / 2 →
      ∃ line word, listing[place]? = some line ∧ machine.DescribedBy line word := by
  intro machine outcome listing place counter within
  have length := image.length_words
  have small : image.words.length ≤ 1792 := by omega
  have listed := List.getElem?_eq_getElem (length ▸ within)
  have memory : machine.memory = .holding image.words := by
    rw [memory_performAll loadNothing quiet, loadImage, load_of_le small]
  have fetched := Memory.wordAt_holding small listed
  rw [← memory, ← counter] at fetched
  have line : listing[place]? =
      some (DisassemblyLine.text ⟨machine.counter, image.words[place]⟩) := by
    simp only [listing, outcome]
    rw [Outcome.lines_disassemble, List.getElem?_map, Image.getElem?_disassembly, listed, counter]
    rfl
  have inside : machine.counter < 16 ^ 4 := by omega
  cases decoded : Instruction.decode? image.words[place] with
  | none => exact ⟨_, _, line, describedBy_of_none fetched inside decoded⟩
  | some instruction => exact ⟨_, _, line, describedBy_of_some fetched inside decoded⟩

/-- The last byte of an image of odd length, reached by a jump over two bytes of a sprite. -/
theorem listing_describes_steps_odd_tail :
    let start : Machine Slots := powerOn {} (Vector.replicate 8 0)
    let image : Image := [0x12, 0x04, 0xFF, 0xFF, 0x60, 0x07, 0x01]
    let requests : List Request := [.step, .hold (some ⟨4, by decide⟩), .tick, .step]
    let machine := (start.loadImage image).machine.performAll requests
    let outcome := Outcome.ofInvocation .standard (Vector.replicate 8 0) (.disassemble "maze.ch8")
      (.ok image)
    let listing := (outcome.report "0").lines .standard
    image.length ≤ 3584 ∧ (∀ request ∈ requests, request.LoadsNothing) ∧
      (∀ occasion ∈ (start.loadImage image).machine.occasions requests,
        occasion.stores = false) ∧
      machine.counter = 512 + 2 * 3 ∧ 3 < (image.length + 1) / 2 ∧
      listing[3]? = some "0x0206 0100  SYS 0x100" ∧
      ∃ line word, listing[3]? = some line ∧ machine.DescribedBy line word := by
  intro start image requests machine outcome listing
  have fits : image.length ≤ 3584 := by decide
  have loadNothing : ∀ request ∈ requests, request.LoadsNothing := by
    intro request asked program loads
    simp only [requests, List.mem_cons, List.not_mem_nil, or_false] at asked
    rcases asked with rfl | rfl | rfl | rfl <;> cases loads
  have quiet : ∀ occasion ∈ (start.loadImage image).machine.occasions requests,
      occasion.stores = false := by decide +kernel
  have counter : machine.counter = 512 + 2 * 3 := by decide +kernel
  have within : 3 < (image.length + 1) / 2 := by decide
  have line : listing[3]? = some "0x0206 0100  SYS 0x100" := by decide +kernel
  exact ⟨fits, loadNothing, quiet, counter, within, line,
    listing_describes_steps fits loadNothing quiet .standard (Vector.replicate 8 0) "maze.ch8" "0"
      3 counter within⟩

end Machine

end Chip8
