import Mathlib.Control.Monad.Basic
import Chip8.Proofs.Machine.Footprint
import Chip8.Proofs.Random

/-!
# Random bytes over a whole life

The random bytes belong to the machine and not to a program: each instruction that draws one takes
the next byte of the keystream, and nothing else moves the source on. So the place of a byte in the
keystream is the number of bytes drawn since power on, through loads, faults and waits.
-/

namespace Chip8

def Instruction.drawsByte : Instruction → Bool
  | .random _ _ => true
  | _ => false

def Occasion.drawsByte {σ : Type} [CallStack σ] (occasion : Occasion σ) : Bool :=
  occasion.completed?.any Instruction.drawsByte

namespace Machine

section

variable {σ : Type} [CallStack σ] {machine : Machine σ}

theorem step_of_random {x : Register} {mask : UInt8}
    (decoded : machine.upcoming = .ok (.random x mask)) :
    machine.step.answer = .ok .running ∧
      machine.step.machine.registers.get x = mask &&& machine.random.next.1 ∧
      machine.step.machine.random = machine.random.next.2 := by
  have finish : machine.step.machine = (machine.drawRandom x mask).advance := by
    rw [machine_step_of_ok decoded]
    rfl
  refine ⟨?_, ?_, ?_⟩
  · rw [answer_step_of_ok decoded]
    rfl
  · rw [finish]
    exact Vector.getElem_set_self x.isLt
  · rw [finish]
    rfl

end

theorem random_load {σ : Type} [CallStack σ] (machine : Machine σ) (program : Program) :
    (machine.load program).machine.random = machine.random := by
  unfold load
  split
  · rfl
  · rfl

end Machine

namespace Occasion

variable {σ : Type} [CallStack σ] {occasion : Occasion σ}

theorem completed?_of_random {x : Register} {mask : UInt8} (move : occasion.move = .step)
    (decoded : occasion.machine.upcoming = .ok (.random x mask)) :
    occasion.completed? = some (.random x mask) :=
  completed?_eq_some_iff.mpr ⟨move, decoded, (Machine.step_of_random decoded).1⟩

theorem drawsByte_iff :
    occasion.drawsByte = true ↔ ∃ x mask, occasion.completed? = some (.random x mask) := by
  rw [drawsByte, Option.any_eq_true]
  constructor
  · rintro ⟨instruction, completed, draws⟩
    cases instruction with
    | random x mask => exact ⟨x, mask, completed⟩
    | _ => cases draws
  · rintro ⟨x, mask, completed⟩
    exact ⟨_, completed, rfl⟩

theorem random_finish (quiet : occasion.drawsByte = false) :
    occasion.finish.random = occasion.machine.random := by
  obtain ⟨machine, move⟩ := occasion
  cases move with
  | load program => exact machine.random_load program
  | tick | hold => rfl
  | step =>
      refine machine.agree_step .random (by decide) fun instruction completed draws => ?_
      cases instruction with
      | random x mask => cases quiet.symm.trans (drawsByte_iff.mpr ⟨x, mask, completed⟩)
      | _ => cases draws

end Occasion

namespace Machine

variable {σ : Type} [CallStack σ]

/-- The source of random bytes stands as far in the keystream as bytes were drawn. -/
def CountsDraws (key : Random.CipherKey) (made : List (Occasion σ)) (machine : Machine σ) : Prop :=
  machine.random.StandsAt key (made.countP Occasion.drawsByte)

theorem CountsDraws.make {key : Random.CipherKey} {made : List (Occasion σ)} {machine : Machine σ}
    (counts : CountsDraws key made machine) (move : Move) :
    CountsDraws key (made ++ [⟨machine, move⟩]) (machine.make move) := by
  rw [CountsDraws, List.countP_append, List.countP_singleton]
  cases draws : Occasion.drawsByte ⟨machine, move⟩ with
  | false =>
      have random : (machine.make move).random = machine.random := Occasion.random_finish draws
      rw [random]
      exact counts
  | true =>
      obtain ⟨x, mask, completed⟩ := Occasion.drawsByte_iff.mp draws
      obtain ⟨rfl, decoded, _⟩ := Occasion.completed?_eq_some_iff.mp completed
      obtain ⟨_, _, random⟩ := step_of_random decoded
      rw [Machine.make, random]
      exact counts.next.2

theorem countsDraws_of_ofConfig {limit : Nat} {seed : UInt64} {entropy : Random.CipherKey}
    {start : Machine σ} (accepted : ofConfig ⟨limit, some seed⟩ entropy = .ok start) :
    CountsDraws (.ofSeed seed) [] start := by
  unfold ofConfig at accepted
  split at accepted
  · cases accepted
    exact Random.Source.standsAt_ofKey _
  · cases accepted

/-- Whatever is asked of a machine with a seed, an instruction that draws a byte gets the one whose
place in the keystream is the number of bytes drawn before, and no other move touches the source. -/
theorem random_bytes_in_order {limit : Nat} {seed : UInt64} {entropy : Random.CipherKey}
    {start : Machine σ} (accepted : ofConfig ⟨limit, some seed⟩ entropy = .ok start)
    (requests : List Request) :
    (∀ before here after x mask, start.occasions requests = before ++ here :: after →
      here.move = .step → here.machine.upcoming = .ok (.random x mask) →
      here.completed? = some (.random x mask) ∧
        here.finish.registers.get x =
          mask &&& Random.byteAt (.ofSeed seed) (before.countP Occasion.drawsByte)) ∧
    (∀ here ∈ start.occasions requests, here.drawsByte = false →
      here.finish.random = here.machine.random) ∧
    (start.performAll requests).random.StandsAt (.ofSeed seed)
      ((start.occasions requests).countP Occasion.drawsByte) := by
  have initial := countsDraws_of_ofConfig accepted
  refine ⟨?_, fun _ _ quiet => Occasion.random_finish quiet, ?_⟩
  · intro before here after x mask split move decoded
    have counts := occasions_preserve_before (fun move counts => counts.make move) initial split
    obtain ⟨_, register, _⟩ := step_of_random decoded
    refine ⟨Occasion.completed?_of_random move decoded, ?_⟩
    rw [Occasion.finish, move, make, register, counts.next.1]
  · exact occasions_preserve (fun move counts => counts.make move) initial requests

/-- A byte drawn under a zero mask before a fault, a reload and a wait for a key takes its place in
the keystream. -/
theorem random_bytes_in_order_after_reload :
    let start : Machine Slots := powerOn ⟨16, some 0⟩ (Vector.replicate 8 0)
    let earlier : List Request := [.load [0xC000, 0x00EE], .step, .step, .tick,
      .load [0xF20A, 0xC10F], .step, .press ⟨7, by decide⟩]
    let here : Occasion Slots := ⟨start.performAll earlier, .step⟩
    ofConfig ⟨16, some 0⟩ (Vector.replicate 8 0) = .ok start ∧
      start.occasions (earlier ++ [.step]) = start.occasions earlier ++ [here] ∧
      here.machine.upcoming = .ok (.random ⟨1, by decide⟩ 0x0F) ∧
      (start.occasions earlier).countP Occasion.drawsByte = 1 ∧
      here.finish.registers.get ⟨1, by decide⟩ = 0x0F &&& Random.byteAt (.ofSeed 0) 1 ∧
      Random.byteAt (.ofSeed 0) 1 = 0xB2 ∧ here.finish.registers.get ⟨1, by decide⟩ = 0x02 := by
  intro start earlier here
  have accepted : ofConfig ⟨16, some 0⟩ (Vector.replicate 8 0) = .ok start := rfl
  have split : start.occasions (earlier ++ [.step]) = start.occasions earlier ++ [here] :=
    start.occasions_append earlier [.step]
  have decoded : here.machine.upcoming = .ok (.random ⟨1, by decide⟩ 0x0F) := by decide +kernel
  have place : (start.occasions earlier).countP Occasion.drawsByte = 1 := by decide +kernel
  obtain ⟨draws, _⟩ := random_bytes_in_order accepted (earlier ++ [.step])
  obtain ⟨_, register⟩ := draws _ here [] _ _ split rfl decoded
  rw [place] at register
  have byte : Random.byteAt (.ofSeed 0) 1 = 0xB2 := by decide +kernel
  have masked : here.finish.registers.get ⟨1, by decide⟩ = 0x02 := by
    rw [register, byte]
    decide
  exact ⟨accepted, split, decoded, place, register, byte, masked⟩

end Machine

end Chip8
