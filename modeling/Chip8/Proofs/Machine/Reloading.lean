import Mathlib.Control.Monad.Basic
import Chip8.Proofs.Machine.Surroundings
import Chip8.Proofs.Memory

/-!
# A load leaves no trace of the past

A program that fits clears the core, whatever was run before, and only the random bytes go on where
they were. So machines with the same random bytes to come and the same stack limit cannot be told
apart after they have loaded the same program, whatever each of them did before.
-/

namespace Chip8

/-- The configurations may differ in their seeds, which only power on reads. -/
structure Surroundings.SameButSeed {σ : Type} (first second : Surroundings σ) : Prop where
  calls_eq : second.calls = first.calls
  random_eq : second.random = first.random
  limit_eq : second.config.stackLimit = first.config.stackLimit

theorem Surroundings.coupling_sameButSeed {σ : Type} [CallStack σ] :
    Surroundings.Coupling (SameButSeed (σ := σ)) where
  clear same := ⟨rfl, same.random_eq, same.limit_eq⟩
  push {first second} same address := by
    rw [same.calls_eq, same.limit_eq]
    cases CallStack.pushWithin first.config.stackLimit first.calls address with
    | error fault => exact .error fault
    | ok pushed => exact .ok ⟨rfl, same.random_eq, same.limit_eq⟩
  pop {first second} same := by
    rw [same.calls_eq]
    cases CallStack.pop first.calls with
    | error fault => exact .error fault
    | ok popped => exact .ok ⟨rfl, rfl, same.random_eq, same.limit_eq⟩
  draw same := by
    rw [same.random_eq]
    exact ⟨rfl, same.calls_eq, rfl, same.limit_eq⟩

namespace Machine

variable {σ : Type} [CallStack σ]

omit [CallStack σ] in
theorem Alike.core_eq {first second : Machine σ}
    (alike : first.Alike Surroundings.SameButSeed second) :
    second.toCore = first.toCore ∧ second.random = first.random := by
  obtain ⟨⟨calls, random, config⟩, same, rfl⟩ := alike
  obtain ⟨rfl, rfl, limit⟩ := same
  exact ⟨rfl, rfl⟩

theorem answer_load_eq_error_iff (machine : Machine σ) (program : Program) (fault : Fault) :
    (machine.load program).answer = .error fault ↔
      1792 < program.length ∧ fault = .programTooLarge program.length := by
  rcases Nat.lt_or_ge 1792 program.length with large | fits
  · rw [load_of_lt large]
    simp [Turn.refused, large, eq_comm]
  · rw [load_of_le fits]
    simp [Nat.not_lt.mpr fits]

theorem answer_loadImage_eq_ok_iff (machine : Machine σ) (image : Image) :
    (machine.loadImage image).answer = .ok () ↔ image.length ≤ 3584 := by
  have words := image.length_words
  rcases Nat.lt_or_ge 1792 image.words.length with large | fits
  · rw [loadImage, load_of_lt large]
    simp only [Turn.refused, reduceCtorEq, false_iff]
    omega
  · rw [loadImage, load_of_le fits]
    simp only [true_iff]
    omega

theorem toList_memory_loadImage (machine : Machine σ) {image : Image}
    (fits : image.length ≤ 3584) :
    (machine.loadImage image).machine.memory.toList =
      List.replicate 512 0 ++ image ++ List.replicate (3584 - image.length) 0 := by
  have words : image.words.length ≤ 1792 := by
    rw [image.length_words]
    omega
  rw [loadImage, load_of_le words]
  exact Memory.toList_holding_words fits

/-- What a machine is after it has loaded a program that fits. -/
structure LoadedAfresh (before after : Machine Slots) (program : Program) : Prop where
  core_eq : ∀ config entropy fresh, ofConfig config entropy = .ok fresh →
    after.toCore = (fresh.load program).machine.toCore
  powerOn_eq : ∀ config entropy fresh, ofConfig config entropy = .ok fresh →
    { after.toCore with memory := fresh.memory } = fresh.toCore
  counter_eq : after.counter = 512
  memory_holds : after.memory.Holds program
  random_eq : after.random = before.random
  config_eq : after.config = before.config

theorem core_of_ofConfig {config : Config} {entropy : Random.CipherKey} {fresh : Machine σ}
    (accepted : ofConfig config entropy = .ok fresh) : fresh.toCore = Core.initial := by
  unfold ofConfig at accepted
  split at accepted
  · cases accepted
    rfl
  · cases accepted

theorem loadedAfresh (machine : Machine Slots) {program : Program}
    (fits : program.length ≤ 1792) :
    machine.LoadedAfresh (machine.load program).machine program := by
  rw [load_of_le fits]
  refine ⟨?_, ?_, rfl, Memory.holds_holding fits, rfl, rfl⟩
  · intro config entropy fresh _
    rw [load_of_le fits]
  · intro config entropy fresh accepted
    rw [core_of_ofConfig accepted]

theorem alike_load {first second : Machine σ} (random : second.random = first.random)
    (limit : second.config.stackLimit = first.config.stackLimit) {program : Program}
    (fits : program.length ≤ 1792) :
    (first.load program).machine.Alike Surroundings.SameButSeed (second.load program).machine := by
  rw [load_of_le fits, load_of_le fits]
  exact ⟨⟨CallStack.empty, second.random, second.config⟩, ⟨rfl, random, limit⟩, rfl⟩

/-- A load clears all but the random bytes and the configuration, so nothing that follows it can
tell what went before. -/
theorem load_forgets (machine : Machine Slots) :
    (∀ program : Program, program.length ≤ 1792 →
      (machine.load program).answer = .ok () ∧
        machine.LoadedAfresh (machine.load program).machine program) ∧
    (∀ (program : Program) fault, (machine.load program).answer = .error fault ↔
      1792 < program.length ∧ fault = .programTooLarge program.length) ∧
    (∀ image : Image, ((machine.loadImage image).answer = .ok () ↔ image.length ≤ 3584) ∧
      (image.length ≤ 3584 → (machine.loadImage image).machine.memory.toList =
        List.replicate 512 0 ++ image ++ List.replicate (3584 - image.length) 0)) ∧
    ∀ other : Machine Slots, other.random = machine.random →
      other.config.stackLimit = machine.config.stackLimit →
      ∀ program : Program, program.length ≤ 1792 → ∀ requests,
        let later := (machine.load program).machine.performAll requests
        let otherLater := (other.load program).machine.performAll requests
        (machine.load program).machine.replies requests =
            (other.load program).machine.replies requests ∧
          otherLater.toCore = later.toCore ∧ otherLater.random = later.random := by
  refine ⟨?_, machine.answer_load_eq_error_iff, ?_, ?_⟩
  · intro program fits
    refine ⟨?_, machine.loadedAfresh fits⟩
    rw [load_of_le fits]
  · intro image
    exact ⟨machine.answer_loadImage_eq_ok_iff image, machine.toList_memory_loadImage⟩
  · intro other random limit program fits requests
    have loaded := alike_load random limit fits
    obtain ⟨replies, alike⟩ := loaded.performAll Surroundings.coupling_sameButSeed requests
    exact ⟨replies, alike.core_eq⟩

/-- A machine in a subroutine, with a running timer and a lit screen, against one just switched on
with the same seed and limit. -/
theorem load_forgets_subroutine :
    let used := (powerOn ⟨3, some 5⟩ (Vector.replicate 8 0) : Machine Slots).performAll
      [.load [0x2202, 0x61FF, 0xF115, 0xD115, 0xF20A], .run 9, .press ⟨4, by decide⟩]
    let fresh : Machine Slots := powerOn ⟨3, some 5⟩ (Vector.replicate 8 0)
    let program : Program := [0xC0FF, 0x00EE]
    let image : Image := [0x60, 0x05, 0x70]
    let requests : List Request := [.run 2, .tick, .loadImage image, .step]
    (used.toCore ≠ fresh.toCore ∧ fresh.random = used.random ∧
      fresh.config.stackLimit = used.config.stackLimit ∧ program.length ≤ 1792 ∧
      (used.load program).answer = .ok () ∧
      used.LoadedAfresh (used.load program).machine program ∧
      (used.load program).machine.replies requests =
        (fresh.load program).machine.replies requests) ∧
    (image.length ≤ 3584 ∧ (used.loadImage image).machine.memory.toList =
      List.replicate 512 0 ++ image ++ List.replicate (3584 - image.length) 0) := by
  intro used fresh program image requests
  have apart : used.counter ≠ fresh.counter := by decide +kernel
  have random : fresh.random = used.random := by decide +kernel
  have limit : fresh.config.stackLimit = used.config.stackLimit := by decide +kernel
  have fits : program.length ≤ 1792 := by decide
  have imageFits : image.length ≤ 3584 := by decide
  obtain ⟨loads, _, images, histories⟩ := load_forgets used
  obtain ⟨answer, afresh⟩ := loads program fits
  obtain ⟨replies, _⟩ := histories fresh random limit program fits requests
  exact ⟨⟨fun same => apart (congrArg Core.counter same), random, limit, fits, answer, afresh,
    replies⟩, imageFits, (images image).2 imageFits⟩

end Machine

end Chip8
