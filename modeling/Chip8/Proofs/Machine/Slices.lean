import Chip8.Proofs.Machine.KeyWait
import Chip8.Proofs.Machine.Atomicity
import Chip8.Proofs.Pacing

/-!
# Runs in slices

A run may be cut into slices of any size. While the slices answer `running` they add up to the
whole run. A step that does not answer so leaves a machine whose next step answers the same and
changes nothing: a fault changes nothing in the first place, and a machine that waits without a key
waits on. So the slices after such an answer only repeat it.
-/

namespace Chip8.Machine

variable {σ : Type} [CallStack σ] {machine : Machine σ}

theorem exists_awaitKey_of_parks (parks : machine.step.answer = .ok .awaitingKey) :
    ∃ x, machine.upcoming = .ok (.awaitKey x) ∧ machine.held? = none := by
  rcases machine.step_cases with ⟨_, _, taken⟩ | ⟨instruction, turn, decoded, effect, taken⟩
  · rw [taken] at parks
    cases parks
  · rw [taken] at parks
    cases effect with
    | park empty => exact ⟨_, decoded, empty⟩
    | _ => cases parks

theorem step_step_of_stop (stops : machine.step.answer ≠ .ok .running) :
    machine.step.machine.step.answer = machine.step.answer ∧
      machine.step.machine.step.machine = machine.step.machine := by
  cases answered : machine.step.answer with
  | error fault =>
      have unmoved := step_of_error answered
      rw [unmoved]
      exact ⟨answered, unmoved⟩
  | ok status =>
      cases status with
      | running => exact absurd answered stops
      | awaitingKey =>
          obtain ⟨x, decoded, empty⟩ := exists_awaitKey_of_parks answered
          rw [(step_of_not_held decoded empty).2]
          -- What is read next does not depend on whether the machine is known to wait.
          exact @step_of_not_held σ _ { machine with waiting := true } x decoded empty

theorem run_add (machine : Machine σ) (first second : Nat) :
    machine.run (first + second) =
      (machine.run first).andThen fun later => later.run second := by
  simp only [run_eq_follow]
  rw [← List.replicate_append_replicate, follow_append]

theorem run_run_of_stop {count again : Nat} (stops : (machine.run count).answer ≠ .ok .running)
    (asked : 1 ≤ again) :
    ((machine.run count).machine.run again).answer = (machine.run count).answer ∧
      ((machine.run count).machine.run again).machine = (machine.run count).machine := by
  rcases machine.run_cases count with ⟨_, running, _⟩ | ⟨done, _, _, stopped, answer, finish⟩
  · exact absurd running stops
  · obtain ⟨sameAnswer, sameMachine⟩ := step_step_of_stop stopped
    obtain ⟨more, rfl⟩ := Nat.exists_eq_add_of_le' asked
    rw [answer, finish, run_succ_of_stop (by rw [sameAnswer]; exact stopped)]
    exact ⟨sameAnswer, sameMachine⟩

/-- A run that goes on is taken up where it was left, events included; one that stopped stays
stopped, with the same answer and on the same machine, however often it is asked to go on. -/
theorem run_in_slices (machine : Machine σ) (first second : Nat) :
    let slice := machine.run first
    let rest := slice.machine.run second
    (slice.answer = .ok .running →
      machine.run (first + second) = { rest with events := slice.events ++ rest.events }) ∧
    (slice.answer ≠ .ok .running →
      machine.run (first + second) = slice ∧
      (1 ≤ second → rest.answer = slice.answer ∧ rest.machine = slice.machine)) := by
  intro slice rest
  refine ⟨fun goesOn => ?_, fun stops => ⟨?_, run_run_of_stop stops⟩⟩
  · rw [run_add]
    exact Turn.andThen_of_running goesOn _
  · rw [run_add]
    exact Turn.andThen_of_stop stops _

/-- A run that goes on, the same run as far as it waits for a key, and the fault that comes once the
key is there. -/
theorem run_in_slices_each_way :
    let blank : Machine Slots := powerOn ⟨3, some 2⟩ (Vector.replicate 8 0)
    let ready := (blank.load [0x6105, 0xF20A, 0x00EE]).machine
    let resumed := ready.performAll [.run 2, .press ⟨7, by decide⟩]
    ((ready.run 1).answer = .ok .running ∧
      ready.run (1 + 4) = { (ready.run 1).machine.run 4 with
        events := (ready.run 1).events ++ ((ready.run 1).machine.run 4).events }) ∧
    ((ready.run 3).answer = .ok .awaitingKey ∧ ready.run (3 + 5) = ready.run 3 ∧
      ((ready.run 3).machine.run 5).answer = .ok .awaitingKey ∧
      ((ready.run 3).machine.run 5).machine = (ready.run 3).machine) ∧
    ((resumed.run 2).answer = .error .stackUnderflow ∧ resumed.run (2 + 1) = resumed.run 2 ∧
      ((resumed.run 2).machine.run 1).answer = .error .stackUnderflow ∧
      ((resumed.run 2).machine.run 1).machine = (resumed.run 2).machine) := by
  intro blank ready resumed
  obtain ⟨goesOn, waits, faults⟩ : (ready.run 1).answer = .ok .running ∧
      (ready.run 3).answer = .ok .awaitingKey ∧
      (resumed.run 2).answer = .error .stackUnderflow := by decide +kernel
  obtain ⟨waitsWhole, waitsAgain⟩ := (run_in_slices ready 3 5).2 (by rw [waits]; decide)
  obtain ⟨faultsWhole, faultsAgain⟩ := (run_in_slices resumed 2 1).2 (by rw [faults]; decide)
  obtain ⟨waitsAnswer, waitsMachine⟩ := waitsAgain (by decide)
  obtain ⟨faultsAnswer, faultsMachine⟩ := faultsAgain (by decide)
  exact ⟨⟨goesOn, (run_in_slices ready 1 4).1 goesOn⟩,
    ⟨waits, waitsWhole, waitsAnswer.trans waits, waitsMachine⟩,
    faults, faultsWhole, faultsAnswer.trans faults, faultsMachine⟩

end Chip8.Machine
