import Mathlib.Control.Monad.Basic
import Chip8.Proofs.CallStack
import Chip8.Proofs.Machine.Run
import Chip8.Proofs.Screen

/-!
# Sound machines

What holds of every reachable machine. The bounds lean on each other: an instruction can only be
read where a whole word lies inside memory, so the address after it fits in memory as well; these
addresses are all that a call keeps and a return goes back to, and no jump reaches beyond the
largest byte plus the largest address.
-/

namespace Chip8.Machine

structure Sound (machine : Machine Slots) : Prop where
  limit_pos : 1 ≤ machine.config.stackLimit
  limit_le : machine.config.stackLimit ≤ 16
  calls : machine.calls.Proper machine.config.stackLimit
  counter_le : machine.counter ≤ 0x10FE
  screen : machine.screen.Binary

theorem Sound.live_le {machine : Machine Slots} (sound : machine.Sound) :
    machine.calls.live ≤ 16 :=
  Nat.le_trans sound.calls.live_le sound.limit_le

theorem Sound.length_calls {machine : Machine Slots} (sound : machine.Sound) :
    machine.calls.toList.length = machine.depth :=
  Slots.length_toList sound.live_le

theorem toNat_return_address {counter : Nat} (inside : counter < 0xFFF) :
    (UInt16.ofNat (counter + 2)).toNat = counter + 2 := by
  rw [UInt16.toNat_ofNat']
  omega

theorem Transfer.sound {machine : Machine Slots} (sound : machine.Sound)
    (inside : machine.counter < 0xFFF) {counter : Nat} {calls : Slots}
    (transfer : machine.Transfer counter calls) :
    counter ≤ 0x10FE ∧ calls.Proper machine.config.stackLimit := by
  cases transfer with
  | stay => exact ⟨sound.counter_le, sound.calls⟩
  | next | skip => exact ⟨by omega, sound.calls⟩
  | jump address =>
      have := address.isLt
      exact ⟨by omega, sound.calls⟩
  | jumpFrom byte address =>
      have := address.isLt
      have := byte.toNat_lt
      exact ⟨by omega, sound.calls⟩
  | call address room =>
      have := address.isLt
      have free : machine.calls.live < machine.config.stackLimit :=
        Nat.lt_of_lt_of_le room (Nat.min_le_left _ _)
      have back := toNat_return_address inside
      exact ⟨by omega, sound.calls.push sound.limit_le free (by omega) (by omega)⟩
  | leave popped =>
      obtain ⟨proper, _, upper⟩ := sound.calls.pop sound.limit_le popped
      exact ⟨by omega, proper⟩

theorem Effect.binary {σ : Type} [CallStack σ] {machine : Machine σ}
    (binary : machine.screen.Binary) {instruction : Instruction} {turn : Turn σ Status}
    (effect : machine.Effect instruction turn) : turn.machine.screen.Binary := by
  cases effect with
  | clear => exact Screen.binary_blank
  | draw sprite => exact Screen.binary_draw binary sprite _ _
  | skip _ taken =>
      cases taken
      · exact binary
      · exact binary
  | _ => exact binary

theorem Sound.step {machine : Machine Slots} (sound : machine.Sound) :
    machine.step.machine.Sound := by
  rcases machine.step_cases with
    ⟨fault, _, refused⟩ | ⟨instruction, turn, decoded, effect, taken⟩
  · rw [refused]
    exact sound
  · have inside := counter_lt_of_upcoming decoded
    obtain ⟨counter, calls⟩ := effect.transfer.sound sound inside
    rw [taken]
    constructor
    · exact effect.config_eq ▸ sound.limit_pos
    · exact effect.config_eq ▸ sound.limit_le
    · exact effect.config_eq ▸ calls
    · exact counter
    · exact effect.binary sound.screen

theorem programStart_le : Memory.programStart ≤ 0x10FE := by
  decide

theorem Sound.load {machine : Machine Slots} (sound : machine.Sound) (program : Program) :
    (machine.load program).machine.Sound := by
  unfold Machine.load
  split
  · exact ⟨sound.limit_pos, sound.limit_le, .empty _, programStart_le, Screen.binary_blank⟩
  · exact sound

theorem Sound.make {machine : Machine Slots} (sound : machine.Sound) (move : Move) :
    (machine.make move).Sound := by
  cases move with
  | load program => exact sound.load program
  | step => exact sound.step
  | tick | hold =>
      exact ⟨sound.limit_pos, sound.limit_le, sound.calls, sound.counter_le, sound.screen⟩

theorem sound_of_ofConfig {config : Config} {entropy : Random.CipherKey} {machine : Machine Slots}
    (accepted : ofConfig config entropy = .ok machine) :
    machine.config = config ∧ machine.Sound := by
  unfold ofConfig at accepted
  split at accepted
  · next allowed =>
      cases accepted
      exact ⟨rfl, allowed.1, allowed.2, .empty _, programStart_le, Screen.binary_blank⟩
  · cases accepted

theorem Reachable.sound {machine : Machine Slots} (reachable : machine.Reachable) :
    machine.Sound := by
  induction reachable with
  | powerOn accepted => exact (sound_of_ofConfig accepted).2
  | perform _ request sound =>
      exact perform_preserves (fun move sound => sound.make move) sound request

theorem config_step {σ : Type} [CallStack σ] (machine : Machine σ) :
    machine.step.machine.config = machine.config := by
  rcases machine.step_cases with ⟨_, _, refused⟩ | ⟨_, _, _, effect, taken⟩
  · rw [refused]
    rfl
  · rw [taken]
    exact effect.config_eq

theorem config_make {σ : Type} [CallStack σ] (machine : Machine σ) (move : Move) :
    (machine.make move).config = machine.config := by
  cases move with
  | load program =>
      simp only [Machine.make, Machine.load]
      split
      · rfl
      · rfl
  | step => exact machine.config_step
  | tick | hold => rfl

@[simp]
theorem config_makeAll {σ : Type} [CallStack σ] (machine : Machine σ) (moves : List Move) :
    (machine.makeAll moves).config = machine.config :=
  makeAll_preserves (P := fun later => later.config = machine.config)
    (fun move same => (config_make _ move).trans same) rfl moves

@[simp]
theorem config_perform {σ : Type} [CallStack σ] (machine : Machine σ) (request : Request) :
    (machine.perform request).machine.config = machine.config := by
  rw [← makeAll_moves, config_makeAll]

@[simp]
theorem config_performAll {σ : Type} [CallStack σ] (machine : Machine σ)
    (requests : List Request) : (machine.performAll requests).config = machine.config := by
  rw [← makeAll_movesAll, config_makeAll]

/-- Whatever is asked of a machine after power on, it stays sound and keeps its configuration, and
a call keeps the address after it in full. -/
theorem performAll_sound {config : Config} {entropy : Random.CipherKey} {start : Machine Slots}
    (accepted : ofConfig config entropy = .ok start) (requests : List Request) :
    (start.performAll requests).config = config ∧ (start.performAll requests).Sound ∧
      ∀ address, (start.performAll requests).upcoming = .ok (.call address) →
        (UInt16.ofNat ((start.performAll requests).counter + 2)).toNat =
          (start.performAll requests).counter + 2 := by
  obtain ⟨same, sound⟩ := sound_of_ofConfig accepted
  refine ⟨?_, ?_, fun address decoded => ?_⟩
  · refine performAll_preserves (P := fun later => later.config = config) ?_ same requests
    intro machine move same
    rw [config_make, same]
  · exact performAll_preserves (fun move sound => sound.make move) sound requests
  · exact toNat_return_address (counter_lt_of_upcoming decoded)

/-- A program that calls itself past a limit of two, and about to call again. -/
theorem performAll_sound_overflowing :
    let start : Machine Slots := powerOn ⟨2, some 7⟩ (Vector.replicate 8 0)
    let machine := start.performAll [.load [0x2202, 0x2200], .run 5, .tick, .press ⟨3, by decide⟩]
    ofConfig ⟨2, some 7⟩ (Vector.replicate 8 0) = .ok start ∧
      machine.upcoming = .ok (.call ⟨0x202, by decide⟩) ∧
      machine.config = ⟨2, some 7⟩ ∧ machine.Sound ∧
      (UInt16.ofNat (machine.counter + 2)).toNat = machine.counter + 2 := by
  intro start machine
  have accepted : ofConfig ⟨2, some 7⟩ (Vector.replicate 8 0) = .ok start := rfl
  have decoded : machine.upcoming = .ok (.call ⟨0x202, by decide⟩) := by decide +kernel
  obtain ⟨config, sound, full⟩ := performAll_sound accepted
    [.load [0x2202, 0x2200], .run 5, .tick, .press ⟨3, by decide⟩]
  exact ⟨accepted, decoded, config, sound, full _ decoded⟩

end Chip8.Machine
