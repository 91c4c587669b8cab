import Mathlib.Control.Monad.Basic
import Chip8.Command.Invocation
import Chip8.Proofs.Command.Numeral

/-!
# The grammar of the arguments

`Asks` gives the lists of arguments for each invocation. Every list asks for exactly one, and it is
the one that is found: of several arguments that cannot be read the first is complained about, and
arguments after the last that counts are of any form.
-/

namespace Chip8.Invocation

open Numeral (Spells HasDefect)

/-- What a list of arguments asks for. -/
inductive Asks : List String → Invocation → Prop where
  | run (file : String) : Asks ["run", file] (.run file 1000 ⟨500⟩)
  | runSteps (file : String) {text : String} {steps : Nat} (spells : Spells text steps) :
      Asks ["run", file, text] (.run file steps ⟨500⟩)
  | runAtRate (file : String) {text rateText : String} {steps hertz : Nat}
      (spells : Spells text steps) (spellsRate : Spells rateText hertz) (rest : List String) :
      Asks ("run" :: file :: text :: rateText :: rest) (.run file steps ⟨hertz⟩)
  | unreadableSteps (file : String) {text : String} {defect : Numeral.Defect}
      (spoiled : HasDefect text defect) (rest : List String) :
      Asks ("run" :: file :: text :: rest) (.unreadable ⟨"STEPS", text, defect⟩)
  | unreadableRate (file : String) {text rateText : String} {steps : Nat}
      {defect : Numeral.Defect} (spells : Spells text steps) (spoiled : HasDefect rateText defect)
      (rest : List String) :
      Asks ("run" :: file :: text :: rateText :: rest) (.unreadable ⟨"HZ", rateText, defect⟩)
  | disassemble (file : String) (rest : List String) :
      Asks ("dis" :: file :: rest) (.disassemble file)
  | unknown {arguments : List String}
      (noRun : ∀ file rest, arguments ≠ "run" :: file :: rest)
      (noDisassembly : ∀ file rest, arguments ≠ "dis" :: file :: rest) :
      Asks arguments .unknown

theorem ofArguments_run (file : String) (rest : List String) :
    ofArguments ("run" :: file :: rest) = ofRunArguments file rest := rfl

theorem ofArguments_unknown {arguments : List String}
    (noRun : ∀ file rest, arguments ≠ "run" :: file :: rest)
    (noDisassembly : ∀ file rest, arguments ≠ "dis" :: file :: rest) :
    ofArguments arguments = .unknown := by
  unfold ofArguments
  split
  · exact absurd rfl (noRun _ _)
  · exact absurd rfl (noDisassembly _ _)
  · rfl

theorem ofArguments_of_asks {arguments : List String} {invocation : Invocation}
    (asks : Asks arguments invocation) : ofArguments arguments = invocation := by
  cases asks with
  | run file => rfl
  | runSteps file spells =>
      rw [ofArguments_run]
      simp only [ofRunArguments, numeralOr, List.tail_cons, Numeral.read_eq_ok_iff.mpr spells]
      rfl
  | runAtRate file spells spellsRate rest =>
      rw [ofArguments_run]
      simp only [ofRunArguments, numeralOr, List.tail_cons, Numeral.read_eq_ok_iff.mpr spells,
        Numeral.read_eq_ok_iff.mpr spellsRate]
  | unreadableSteps file spoiled rest =>
      rw [ofArguments_run]
      simp only [ofRunArguments, numeralOr, Numeral.read_eq_error_iff.mpr spoiled]
  | unreadableRate file spells spoiled rest =>
      rw [ofArguments_run]
      simp only [ofRunArguments, numeralOr, List.tail_cons, Numeral.read_eq_ok_iff.mpr spells,
        Numeral.read_eq_error_iff.mpr spoiled]
  | disassemble file rest => rfl
  | unknown noRun noDisassembly => exact ofArguments_unknown noRun noDisassembly

theorem asks_run (file : String) (rest : List String) :
    ∃ invocation, Asks ("run" :: file :: rest) invocation := by
  cases rest with
  | nil => exact ⟨_, .run file⟩
  | cons text rest =>
      rcases Numeral.read_cases text with ⟨steps, _, spells⟩ | ⟨defect, _, spoiled⟩
      · cases rest with
        | nil => exact ⟨_, .runSteps file spells⟩
        | cons rateText rest =>
            rcases Numeral.read_cases rateText with ⟨hertz, _, spellsRate⟩ | ⟨defect, _, spoiled⟩
            · exact ⟨_, .runAtRate file spells spellsRate rest⟩
            · exact ⟨_, .unreadableRate file spells spoiled rest⟩
      · exact ⟨_, .unreadableSteps file spoiled rest⟩

theorem exists_asks (arguments : List String) : ∃ invocation, Asks arguments invocation := by
  by_cases run : ∃ file rest, arguments = "run" :: file :: rest
  · obtain ⟨file, rest, rfl⟩ := run
    exact asks_run file rest
  by_cases disassembly : ∃ file rest, arguments = "dis" :: file :: rest
  · obtain ⟨file, rest, rfl⟩ := disassembly
    exact ⟨_, .disassemble file rest⟩
  · exact ⟨_, .unknown (fun file rest same => run ⟨file, rest, same⟩)
      fun file rest same => disassembly ⟨file, rest, same⟩⟩

/-- What the arguments are found to ask for is what they ask for by the grammar. -/
theorem ofArguments_eq_iff_asks (arguments : List String) (invocation : Invocation) :
    ofArguments arguments = invocation ↔ Asks arguments invocation := by
  constructor
  · rintro rfl
    obtain ⟨found, asks⟩ := exists_asks arguments
    rw [ofArguments_of_asks asks]
    exact asks
  · exact ofArguments_of_asks

/-- The first of two arguments that cannot be read is the one complained about. -/
example : ofArguments ["run", "maze", "-1", "fast"] =
    .unreadable ⟨"STEPS", "-1", .invalidDigit⟩ := by
  decide

end Chip8.Invocation
