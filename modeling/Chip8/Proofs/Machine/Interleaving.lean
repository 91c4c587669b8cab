import Mathlib.Control.Monad.Basic
import Chip8.Proofs.Machine.KeyWait
import Chip8.Proofs.Machine.Surroundings

/-!
# Steps and ticks in any order

Three instructions read or set a timer. Every other one does the same before and after a tick, and
so does a step that is refused or that waits. While a program comes to none of the three, it makes
no difference between which of its steps the host ticks the timers: the steps get the same replies,
and the machine ends as if all ticks had come last.
-/

namespace Chip8

def Instruction.usesTimer : Instruction → Bool
  | .readDelay _ | .setDelay _ | .setSound _ => true
  | _ => false

variable {σ : Type} [CallStack σ]

/-- Whether the move is a step that comes to an instruction that uses a timer. -/
def Occasion.usesTimer (occasion : Occasion σ) : Bool :=
  match occasion.move, occasion.machine.upcoming with
  | .step, .ok instruction => instruction.usesTimer
  | _, _ => false

namespace Machine

section

variable {τ : Type}

theorem skipWhen_tick (machine : Machine τ) (condition : Bool) :
    machine.tick.skipWhen condition = (machine.skipWhen condition).tick := by
  cases condition
  · rfl
  · rfl

theorem combine_tick (machine : Machine τ) (combination : Combination) (x y : Register) :
    machine.tick.combine combination x y = (machine.combine combination x y).tick := by
  cases combination <;> rfl

theorem store_tick (machine : Machine τ) (bytes : List UInt8) :
    (machine.store bytes).Agrees (fun first second => second = first.tick)
      (machine.tick.store bytes) := by
  simp only [store, tick]
  cases machine.memory.write machine.index.toNat bytes with
  | error fault => exact ⟨rfl, rfl, rfl⟩
  | ok memory => exact ⟨rfl, rfl, rfl⟩

end

theorem execute_tick (machine : Machine σ) {instruction : Instruction}
    (untimed : instruction.usesTimer = false) :
    (machine.execute instruction).Agrees (fun first second => second = first.tick)
      (machine.tick.execute instruction) := by
  cases instruction with
  | readDelay | setDelay | setSound => cases untimed
  | skipIfByte | skipUnlessByte | skipIfSame | skipUnlessSame | skipIfHeld | skipUnlessHeld =>
      exact ⟨rfl, rfl, machine.skipWhen_tick _⟩
  | combine combination x y =>
      exact ⟨rfl, rfl, congrArg advance (machine.combine_tick combination x y)⟩
  | leave =>
      simp only [execute, tick]
      cases CallStack.pop machine.calls with
      | error fault => exact ⟨rfl, rfl, rfl⟩
      | ok popped => exact ⟨rfl, rfl, rfl⟩
  | call address =>
      simp only [execute, tick]
      cases CallStack.pushWithin machine.config.stackLimit machine.calls _ with
      | error fault => exact ⟨rfl, rfl, rfl⟩
      | ok calls => exact ⟨rfl, rfl, rfl⟩
  | draw x y rows =>
      simp only [execute, tick]
      cases machine.memory.read machine.index.toNat rows with
      | error fault => exact ⟨rfl, rfl, rfl⟩
      | ok sprite => exact ⟨rfl, rfl, rfl⟩
  | loadRegisters x =>
      simp only [execute, tick]
      cases machine.memory.read machine.index.toNat (x + 1) with
      | error fault => exact ⟨rfl, rfl, rfl⟩
      | ok bytes => exact ⟨rfl, rfl, rfl⟩
  | storeDecimal | storeRegisters => exact machine.store_tick _
  | awaitKey x =>
      simp only [execute, tick]
      cases machine.held? with
      | none => exact ⟨rfl, rfl, rfl⟩
      | some key => exact ⟨rfl, rfl, rfl⟩
  | _ => exact ⟨rfl, rfl, rfl⟩

theorem step_tick {machine : Machine σ}
    (untimed : Occasion.usesTimer ⟨machine, .step⟩ = false) :
    machine.step.Agrees (fun first second => second = first.tick) machine.tick.step := by
  have same : machine.tick.upcoming = machine.upcoming := rfl
  unfold Occasion.usesTimer at untimed
  unfold step
  rw [same]
  cases decoded : machine.upcoming with
  | error fault => exact ⟨rfl, rfl, rfl⟩
  | ok instruction =>
      rw [decoded] at untimed
      exact (machine.execute_tick untimed).after _

/-- No step of so many in a row comes to an instruction that uses a timer. -/
def Untimed (machine : Machine σ) (steps : Nat) : Prop :=
  ∀ occasion ∈ machine.occasions (List.replicate steps .step), occasion.usesTimer = false

theorem untimed_succ_iff {machine : Machine σ} {steps : Nat} :
    machine.Untimed (steps + 1) ↔
      Occasion.usesTimer ⟨machine, .step⟩ = false ∧ machine.step.machine.Untimed steps :=
  List.forall_mem_cons

/-- A tick before the steps may as well come after them. -/
theorem Untimed.tick {machine : Machine σ} {steps : Nat} (untimed : machine.Untimed steps) :
    machine.tick.Untimed steps ∧
      machine.tick.replies (List.replicate steps .step) =
        machine.replies (List.replicate steps .step) ∧
      machine.tick.performAll (List.replicate steps .step) =
        (machine.performAll (List.replicate steps .step)).tick := by
  induction steps generalizing machine with
  | zero => exact ⟨untimed, rfl, rfl⟩
  | succ steps ih =>
      obtain ⟨here, later⟩ := untimed_succ_iff.mp untimed
      have performed : (machine.perform .step).Agrees (fun first second => second = first.tick)
          (machine.tick.perform .step) := (step_tick here).map some
      obtain ⟨laterUntimed, replies, finish⟩ := ih later
      refine ⟨untimed_succ_iff.mpr ⟨here, ?_⟩, ?_, ?_⟩
      · rw [(step_tick here).related]
        exact laterUntimed
      · simp only [List.replicate_succ, Machine.replies, ← performed.answer_eq,
          ← performed.events_eq, performed.related]
        exact congrArg (_ :: ·) replies
      · simp only [List.replicate_succ, performAll, performed.related]
        exact finish

/-- The replies to the steps among the requests. -/
def stepReplies (machine : Machine σ) : List Request → List Reply
  | [] => []
  | request :: rest =>
      let turn := machine.perform request
      let later := turn.machine.stepReplies rest
      match request with
      | .step => ⟨turn.answer, turn.events⟩ :: later
      | _ => later

theorem performAll_of_alternating {machine : Machine σ} {requests : List Request}
    (alternating : ∀ request ∈ requests, request = .step ∨ request = .tick)
    (untimed : machine.Untimed (requests.count .step)) :
    let steps := List.replicate (requests.count .step) Request.step
    machine.stepReplies requests = machine.replies steps ∧
      machine.performAll requests =
        (machine.performAll steps).ticked (requests.count .tick) ∧
      ∀ occasion ∈ machine.occasions requests, occasion.usesTimer = false := by
  induction requests generalizing machine with
  | nil => exact ⟨rfl, rfl, nofun⟩
  | cons request rest ih =>
      have restAlternating : ∀ request ∈ rest, request = .step ∨ request = .tick :=
        fun request listed => alternating request (List.mem_cons_of_mem _ listed)
      rcases alternating request List.mem_cons_self with rfl | rfl
      · rw [List.count_cons_self] at untimed
        obtain ⟨here, later⟩ := untimed_succ_iff.mp untimed
        obtain ⟨replies, finish, elsewhere⟩ := ih restAlternating later
        rw [List.count_cons_self, List.count_cons_of_ne Request.noConfusion]
        exact ⟨congrArg (_ :: ·) replies, finish, List.forall_mem_cons.mpr ⟨here, elsewhere⟩⟩
      · rw [List.count_cons_of_ne Request.noConfusion] at untimed
        obtain ⟨later, sameReplies, sameFinish⟩ := untimed.tick
        obtain ⟨replies, finish, elsewhere⟩ := ih restAlternating later
        rw [List.count_cons_self, List.count_cons_of_ne Request.noConfusion]
        refine ⟨replies.trans sameReplies, ?_, List.forall_mem_cons.mpr ⟨rfl, elsewhere⟩⟩
        rw [sameFinish] at finish
        exact finish

/-- While no step comes to an instruction that uses a timer, it makes no difference where ticks
stand among the steps: the steps get the replies that they get without ticks, the machine ends as if
the ticks had come last, and still no step comes to such an instruction. -/
theorem steps_and_ticks_in_any_order {machine : Machine σ} {steps ticks : Nat}
    (untimed : ∀ occasion ∈ machine.occasions (List.replicate steps .step),
      occasion.usesTimer = false)
    {requests : List Request}
    (interleaved : requests.Perm (List.replicate steps .step ++ List.replicate ticks .tick)) :
    machine.stepReplies requests = machine.replies (List.replicate steps .step) ∧
      machine.performAll requests =
        machine.performAll (List.replicate steps .step ++ List.replicate ticks .tick) ∧
      ∀ occasion ∈ machine.occasions requests, occasion.usesTimer = false := by
  have stepCount : requests.count .step = steps := by
    rw [interleaved.count_eq]
    simp [List.count_append, List.count_replicate]
  have tickCount : requests.count .tick = ticks := by
    rw [interleaved.count_eq]
    simp [List.count_append, List.count_replicate]
  have alternating : ∀ request ∈ requests, request = .step ∨ request = .tick := by
    intro request asked
    rcases List.mem_append.mp (interleaved.mem_iff.mp asked) with step | tick
    · exact .inl (List.eq_of_mem_replicate step)
    · exact .inr (List.eq_of_mem_replicate tick)
  have untimedCount : machine.Untimed (requests.count .step) := by
    rw [stepCount]
    exact untimed
  rw [performAll_append, ← stepCount, ← tickCount]
  exact performAll_of_alternating alternating untimedCount

/-- A program that has set the sound timer and then adds to a register and waits for a key. -/
theorem steps_and_ticks_in_any_order_buzzing :
    let blank : Machine Slots := powerOn {} (Vector.replicate 8 0)
    let machine := blank.performAll [.load [0x6109, 0xF118, 0x7101, 0xF20A], .run 2]
    let requests : List Request := [.tick, .step, .step, .tick, .step]
    (∀ occasion ∈ machine.occasions (List.replicate 3 .step), occasion.usesTimer = false) ∧
      requests.Perm (List.replicate 3 .step ++ List.replicate 2 .tick) ∧
      (machine.stepReplies requests).map Reply.answer =
        [.ok (some .running), .ok (some .awaitingKey), .ok (some .awaitingKey)] ∧
      machine.performAll requests =
        machine.performAll (List.replicate 3 .step ++ List.replicate 2 .tick) ∧
      (machine.performAll requests).sound = 7 := by
  intro blank machine requests
  obtain ⟨untimed, answers, sound⟩ :
      (∀ occasion ∈ machine.occasions (List.replicate 3 .step), occasion.usesTimer = false) ∧
        (machine.replies (List.replicate 3 .step)).map Reply.answer =
          [.ok (some .running), .ok (some .awaitingKey), .ok (some .awaitingKey)] ∧
        (machine.performAll requests).sound = 7 := by
    decide +kernel
  have interleaved : requests.Perm (List.replicate 3 .step ++ List.replicate 2 .tick) := by
    decide
  obtain ⟨replies, finish, _⟩ := steps_and_ticks_in_any_order untimed interleaved
  rw [← replies] at answers
  exact ⟨untimed, interleaved, answers, finish, sound⟩

end Machine

end Chip8
