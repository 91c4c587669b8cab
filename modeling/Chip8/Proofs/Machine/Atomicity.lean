import Mathlib.Control.Monad.Basic
import Chip8.Proofs.Machine.Run

/-!
# Faults change nothing

A step or a load that faults hands back the machine as it came, down to the cells that no live
address uses. A run that faults hands back the machine that its last good step left, and a press
the machine with the key held.
-/

namespace Chip8.Machine

variable {σ : Type} [CallStack σ]

theorem step_of_error {machine : Machine σ} {fault : Fault}
    (refused : machine.step.answer = .error fault) : machine.step.machine = machine := by
  rcases machine.step_cases with ⟨_, _, taken⟩ | ⟨instruction, turn, _, effect, taken⟩
  · rw [taken]
    rfl
  · rw [taken] at refused ⊢
    cases effect with
    | refuse => rfl
    | _ => cases refused

theorem load_of_error {machine : Machine σ} {program : Program} {fault : Fault}
    (refused : (machine.load program).answer = .error fault) :
    (machine.load program).machine = machine := by
  unfold load at refused ⊢
  split at refused
  · cases refused
  · next large => rw [if_neg large, Turn.refused]

theorem run_of_error {machine : Machine σ} {count : Nat} {fault : Fault}
    (refused : (machine.run count).answer = .error fault) :
    ∃ done < count, (∀ earlier < done, (machine.afterSteps earlier).step.answer = .ok .running) ∧
      (machine.afterSteps done).step.answer = .error fault ∧
      (machine.run count).machine = machine.afterSteps done := by
  rcases machine.run_cases count with
    ⟨_, answer, _⟩ | ⟨done, before, running, _, answer, finish⟩
  · cases answer.symm.trans refused
  · have last := answer.symm.trans refused
    exact ⟨done, before, running, last, finish.trans (step_of_error last)⟩

theorem fault_changes_nothing (machine : Machine σ) :
    (∀ fault, machine.step.answer = .error fault → machine.step.machine = machine) ∧
    (∀ program fault, (machine.load program).answer = .error fault →
      (machine.load program).machine = machine) ∧
    (∀ image fault, (machine.loadImage image).answer = .error fault →
      (machine.loadImage image).machine = machine) ∧
    (∀ count fault, (machine.run count).answer = .error fault →
      ∃ done < count,
        (∀ earlier < done, (machine.afterSteps earlier).step.answer = .ok .running) ∧
        (machine.afterSteps done).step.answer = .error fault ∧
        (machine.run count).machine = machine.afterSteps done) ∧
    ∀ key fault, (machine.press key).answer = .error fault →
      (machine.press key).machine = { machine with held? := some key } :=
  ⟨fun _ => step_of_error, fun _ _ => load_of_error, fun _ _ => load_of_error,
    fun _ _ => run_of_error, fun _ _ => step_of_error⟩

/-- A return without a call, after one instruction that goes well. -/
theorem fault_changes_nothing_underflow :
    let blank : Machine Slots := powerOn {} (Vector.replicate 8 0)
    let ready := (blank.load [0x6001, 0x00EE]).machine
    let stuck := ready.step.machine
    let key : Key := ⟨7, by decide⟩
    (stuck.step.answer = .error .stackUnderflow ∧ stuck.step.machine = stuck) ∧
    ((stuck.load (List.replicate 1793 0)).answer = .error (.programTooLarge 1793) ∧
      (stuck.load (List.replicate 1793 0)).machine = stuck) ∧
    ((stuck.loadImage (List.replicate 3585 0)).answer = .error (.programTooLarge 1793) ∧
      (stuck.loadImage (List.replicate 3585 0)).machine = stuck) ∧
    ((ready.run 3).answer = .error .stackUnderflow ∧
      ∃ done < 3, (∀ earlier < done, (ready.afterSteps earlier).step.answer = .ok .running) ∧
        (ready.afterSteps done).step.answer = .error .stackUnderflow ∧
        (ready.run 3).machine = ready.afterSteps done) ∧
    ((stuck.press key).answer = .error .stackUnderflow ∧
      (stuck.press key).machine = { stuck with held? := some key }) := by
  intro blank ready stuck key
  have step : stuck.step.answer = .error .stackUnderflow := by decide +kernel
  have load : (stuck.load (List.replicate 1793 0)).answer = .error (.programTooLarge 1793) := by
    decide +kernel
  have image : (stuck.loadImage (List.replicate 3585 0)).answer =
      .error (.programTooLarge 1793) := by
    decide +kernel
  have run : (ready.run 3).answer = .error .stackUnderflow := by decide +kernel
  have press : (stuck.press key).answer = .error .stackUnderflow := by decide +kernel
  obtain ⟨stepLaw, loadLaw, imageLaw, _, pressLaw⟩ := fault_changes_nothing stuck
  obtain ⟨_, _, _, runLaw, _⟩ := fault_changes_nothing ready
  exact ⟨⟨step, stepLaw _ step⟩, ⟨load, loadLaw _ _ load⟩, ⟨image, imageLaw _ _ image⟩,
    ⟨run, runLaw _ _ run⟩, ⟨press, pressLaw _ _ press⟩⟩

end Chip8.Machine
