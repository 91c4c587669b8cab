import Mathlib.Control.Monad.Basic
import Chip8.Proofs.Checked.Execution
import Chip8.Proofs.Machine.Faults
import Chip8.Proofs.Machine.Soundness

/-!
# Checked machines

What the host asks, with every operation checked. On a reachable machine no operation traps: the
counter is small enough for a word after it to have an address, the live addresses fill their cells
at most, and each digit of a word names a register. What comes of the checked operations is what
comes of the machine itself, so the only failures are the faults that it answers with.
-/

namespace Chip8.Checked

def wordAt (memory : Memory) (start : Nat) : Except Trap (Except Fault Word) := do
  match ← read memory start 2 with
  | .error fault => return .error fault
  | .ok bytes => return .ok (← toWord (← fetch bytes 0) (← fetch bytes 1))

def step (machine : Machine Slots) : Except Trap (Turn Slots Status) := do
  match ← wordAt machine.memory machine.counter with
  | .error fault => return .refused fault machine
  | .ok word =>
      let digits ← cut word
      match Instruction.decode? word with
      | none => return .refused (.unsupportedOpcode word) machine
      | some instruction =>
          return (← execute machine digits instruction).after
            (.executing machine.counter instruction)

def run (machine : Machine Slots) : Nat → Except Trap (Turn Slots Status)
  | 0 => return .running machine
  | count + 1 => do
      let turn ← step machine
      match turn.answer with
      | .ok .running =>
          let rest ← run turn.machine count
          return { rest with events := turn.events ++ rest.events }
      | _ => return turn

theorem wordAt_eq (memory : Memory) {start : Nat} (small : start + 2 < numberBound) :
    wordAt memory start = .ok (memory.wordAt start) := by
  rw [wordAt, read_eq _ small, ok_bind, Memory.wordAt]
  cases memory.read start 2 with
  | error fault => rfl
  | ok bytes =>
      simp [Except.map]

theorem step_eq {machine : Machine Slots} (sound : machine.Sound) :
    step machine = .ok machine.step := by
  have small : machine.counter + 2 < numberBound := by
    have := sound.counter_le
    exact lt_numberBound (by omega)
  rw [step, wordAt_eq _ small, ok_bind, Machine.step, Machine.upcoming]
  cases fetched : machine.memory.wordAt machine.counter with
  | error fault => rfl
  | ok word =>
      dsimp only
      rw [cut_eq, ok_bind]
      cases decoded : Instruction.decode? word with
      | none => rfl
      | some instruction =>
          -- A word that was read lies in memory, which keeps the counter below its last address.
          have denotes := (Instruction.decode?_eq_some_iff word instruction).mp decoded
          have upcoming := (Machine.upcoming_eq_ok_iff fetched instruction).mpr denotes
          dsimp only
          rw [execute_eq machine denotes (Machine.counter_lt_of_upcoming upcoming) sound.live_le]
          rfl

theorem run_eq {machine : Machine Slots} (sound : machine.Sound) (count : Nat) :
    run machine count = .ok (machine.run count) := by
  induction count generalizing machine with
  | zero => rfl
  | succ count ih =>
      have rest := ih sound.step
      rw [run, step_eq sound, ok_bind, Machine.run_succ]
      generalize machine.step = turn at rest ⊢
      obtain ⟨answer, next, events⟩ := turn
      match answer with
      | .error fault | .ok .awaitingKey => rfl
      | .ok .running =>
          dsimp only at rest ⊢
          rw [rest]
          rfl

def load (machine : Machine Slots) (program : Program) : Except Trap (Turn Slots Unit) := do
  if Memory.programCapacity < program.length then
    return .refused (.programTooLarge program.length) machine
  else
    let core := machine.toCore.reset
    let memory ← lay core.memory program
    return ⟨.ok (), { machine with toCore := { core with memory := memory } },
      [.loaded program.length]⟩

def perform (machine : Machine Slots) (request : Request) :
    Except Trap (Turn Slots (Option Status)) := do
  match request with
  | .load program => return (← load machine program).map fun _ => none
  | .loadImage image => return (← load machine (← words image)).map fun _ => none
  | .step => return (← step machine).map some
  | .run count => return (← run machine count).map some
  | .tick => return ⟨.ok none, machine.tick, []⟩
  | .hold key? => return ⟨.ok none, machine.hold key?, []⟩
  | .press key => return (← step (machine.hold (some key))).map some

@[simp]
theorem load_eq (machine : Machine Slots) (program : Program) :
    load machine program = .ok (machine.load program) := by
  rcases Nat.lt_or_ge Memory.programCapacity program.length with large | fits
  · simp [load, large]
  · simp [load, Nat.not_lt.mpr fits, lay_eq, fits, Memory.holding, Core.initial]

theorem perform_eq {machine : Machine Slots} (sound : machine.Sound) (request : Request) :
    perform machine request = .ok (machine.perform request) := by
  cases request with
  | load program => simp [perform, Machine.perform]
  | loadImage image => simp [perform, Machine.perform, Machine.loadImage]
  | step => simp [perform, Machine.perform, step_eq sound]
  | run count => simp [perform, Machine.perform, run_eq sound]
  | tick | hold => rfl
  | press key =>
      have held : (machine.hold (some key)).Sound := sound.make (.hold (some key))
      simp [perform, Machine.perform, Machine.press, step_eq held]

/-- Any number names a register by its lowest digit. -/
def registerAt (machine : Machine Slots) (number : Nat) : Except Trap UInt8 :=
  register machine (number &&& 15)

theorem registerAt_eq (machine : Machine Slots) (number : Nat) :
    registerAt machine number = .ok (machine.register number) := by
  have lowest : number &&& 15 = number % 16 := Nat.and_two_pow_sub_one_eq_mod number 4
  rw [registerAt, lowest]
  exact register_eq machine (Register.ofNat number)

/-- Whatever is asked of a reachable machine and whatever is read off it, by numbers of any size,
nothing traps and what comes is what comes of the machine: its answers and its faults. Drawing traps
on no screen and no sprite that fits in memory. -/
theorem no_operation_traps {machine : Machine Slots} (reachable : machine.Reachable) :
    (∀ request, perform machine request = .ok (machine.perform request)) ∧
      (∀ number, registerAt machine number = .ok (machine.register number)) ∧
      (∀ column row, dot machine.screen column row = .ok (machine.screen.dot column row)) ∧
      (∀ count, listing machine.memory count = .ok (machine.memory.listing count)) ∧
      picture machine.screen = .ok machine.screen.picture ∧
      ∀ (screen : Screen) (sprite : Sprite) (x y : UInt8), sprite.length ≤ longestSlice →
        draw screen sprite x y = .ok (screen.draw sprite x.toNat y.toNat) :=
  ⟨perform_eq reachable.sound, registerAt_eq machine, dot_eq machine.screen,
    listing_eq machine.memory, picture_eq machine.screen,
    fun screen _ x y countable => draw_eq screen countable x y⟩

/-- A sprite across the corner of the screen, then digits stored past the end of memory: the store
is refused, and so is an image of one byte too many. -/
theorem no_operation_traps_past_the_end :
    let start : Machine Slots := Machine.powerOn {} (Vector.replicate 8 0)
    let machine := start.performAll [.load [0x603F, 0x611F, 0xD01F, 0xAFFF, 0xF333], .run 4]
    let large : Image := List.replicate 3585 0
    let tall : Sprite := List.replicate 40 0xFF
    machine.Reachable ∧
      (machine.perform .step).answer = .error (.outOfBounds 0x1000) ∧
      perform machine .step = .ok (machine.perform .step) ∧
      (machine.perform (.loadImage large)).answer = .error (.programTooLarge 1793) ∧
      perform machine (.loadImage large) = .ok (machine.perform (.loadImage large)) ∧
      registerAt machine 0xFFFFFFFFFFFFFFFF = .ok (machine.register 15) ∧
      dot machine.screen 0xFFFFFFFFFFFFFFFF 0xFFFFFFFFFFFFFFFF =
        .ok (machine.screen.dot 63 31) ∧
      draw machine.screen tall 255 255 = .ok (machine.screen.draw tall 255 255) := by
  intro start machine large tall
  have accepted : Machine.ofConfig {} (Vector.replicate 8 0) = .ok start := rfl
  have reachable : machine.Reachable := (Machine.Reachable.powerOn accepted).performAll _
  have refusals : (machine.perform .step).answer = .error (.outOfBounds 0x1000) ∧
      (machine.perform (.loadImage large)).answer = .error (.programTooLarge 1793) := by
    decide +kernel
  obtain ⟨requests, registers, dots, _, _, drawings⟩ := no_operation_traps reachable
  exact ⟨reachable, refusals.1, requests .step, refusals.2, requests (.loadImage large),
    registers 0xFFFFFFFFFFFFFFFF, dots 0xFFFFFFFFFFFFFFFF 0xFFFFFFFFFFFFFFFF,
    drawings machine.screen tall 255 255 (by decide)⟩

end Chip8.Checked
