import Mathlib.Control.Monad.Basic
import Chip8.Proofs.Machine.Atomicity
import Chip8.Proofs.Pacing
import Chip8.Proofs.Screen
import Chip8.Proofs.Text.Hex

/-!
# How the command ends

The arguments are settled before any file is read: arguments that cannot be understood lead to the
usage text. An understood command fails when its file cannot be read, and a run also when the image
is too large or a step faults. A run prints the screen once if the image was loaded, and after a
fault it is the screen of the machine that the faulting step was asked of.
-/

namespace Chip8

namespace Invocation

/-- What is read for an invocation. Where no file is to be read, nothing looks at it. -/
def contents (files : String → Except ReadFailure Image) (invocation : Invocation) :
    Except ReadFailure Image :=
  match invocation.file? with
  | none => .error .notFound
  | some file => files file

end Invocation

namespace Threshold

@[simp]
theorem shows_error (level : Level) : (upTo level).shows .error = true := by
  cases level <;> decide

end Threshold

namespace Report

@[simp]
theorem line_error (text : String) :
    (Record.mk .error .command text).line = "ERROR [chip8] " ++ text := by
  have front : String.ofList (Level.error.name.toList.rightpad 5 ' ') ++ " [" ++
      Origin.command.name ++ "] " = "ERROR [chip8] " := by
    decide +kernel
  rw [Record.line, front]

end Report

namespace Trial

variable (trial : Trial) (milliseconds : String)

end Trial

namespace Outcome

variable (threshold : Threshold) (entropy : Random.CipherKey) (file : String) (steps : Nat)
  (rate : Rate) (milliseconds : String)

end Outcome

end Chip8
