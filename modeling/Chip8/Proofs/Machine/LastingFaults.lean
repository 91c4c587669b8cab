import Mathlib.Control.Monad.Basic
import Chip8.Proofs.Machine.Atomicity
import Chip8.Proofs.Machine.Faults

/-!
# Faults last

What stands in the way of an instruction is the call stack, the index or the word itself, and never
a timer or a held key. So a machine whose next step faults stays as it is but for its timers and its
key, and answers with the same fault whenever it is asked to go on, until a program is loaded.
-/

namespace Chip8

/-- Whether a request asks for a step at all. -/
def Request.AsksForStep : Request → Prop
  | .step | .press _ => True
  | .run count => 1 ≤ count
  | _ => False

namespace Machine

section

variable {σ : Type}

/-- The same machine with other timers and another key held. -/
def withPeripherals (machine : Machine σ) (delay sound : UInt8) (held? : Option Key) : Machine σ :=
  { machine with delay := delay, sound := sound, held? := held? }

variable [CallStack σ] {machine : Machine σ} {fault : Fault}

theorem Obstacle.withPeripherals {instruction : Instruction}
    (obstacle : machine.Obstacle instruction fault) (delay sound : UInt8) (held? : Option Key) :
    (machine.withPeripherals delay sound held?).Obstacle instruction fault := by
  cases obstacle with
  | underflow empty => exact .underflow empty
  | overflow address full => exact .overflow address full
  | outOfBounds span past => exact .outOfBounds span past

theorem answer_step_withPeripherals (refused : machine.step.answer = .error fault)
    (delay sound : UInt8) (held? : Option Key) :
    (machine.withPeripherals delay sound held?).step.answer = .error fault := by
  cases decoded : machine.upcoming with
  | error other =>
      have same : (machine.withPeripherals delay sound held?).upcoming = .error other := decoded
      rw [answer_step_of_error decoded] at refused
      rw [answer_step_of_error same, refused]
  | ok instruction =>
      have same : (machine.withPeripherals delay sound held?).upcoming = .ok instruction := decoded
      rw [answer_step_of_ok decoded, answer_execute_iff] at refused
      rw [answer_step_of_ok same, answer_execute_iff]
      exact refused.withPeripherals delay sound held?

/-- The later machine differs at most in its timers and its held key. -/
def KeepsProgram (machine later : Machine σ) : Prop :=
  ∃ delay sound held?, later = machine.withPeripherals delay sound held?

omit [CallStack σ] in
theorem KeepsProgram.refl (machine : Machine σ) : machine.KeepsProgram machine :=
  ⟨machine.delay, machine.sound, machine.held?, rfl⟩

omit [CallStack σ] in
theorem KeepsProgram.trans {later last : Machine σ} (first : machine.KeepsProgram later)
    (second : later.KeepsProgram last) : machine.KeepsProgram last := by
  obtain ⟨delay, sound, held?, rfl⟩ := first
  obtain ⟨delayLast, soundLast, heldLast?, rfl⟩ := second
  exact ⟨delayLast, soundLast, heldLast?, rfl⟩

theorem KeepsProgram.answer_step {later : Machine σ} (kept : machine.KeepsProgram later)
    (refused : machine.step.answer = .error fault) : later.step.answer = .error fault := by
  obtain ⟨delay, sound, held?, rfl⟩ := kept
  exact answer_step_withPeripherals refused delay sound held?

theorem run_succ_of_error (refused : machine.step.answer = .error fault) (count : Nat) :
    machine.run (count + 1) = machine.step := by
  apply run_succ_of_stop
  rw [refused]
  exact nofun

theorem keepsProgram_perform (refused : machine.step.answer = .error fault) {request : Request}
    (loadsNothing : request.LoadsNothing) :
    machine.KeepsProgram (machine.perform request).machine := by
  cases request with
  | load | loadImage =>
      have large := loadsNothing _ rfl
      simp only [perform, loadImage, load_of_lt large]
      exact .refl machine
  | step =>
      have same : (machine.perform .step).machine = machine := step_of_error refused
      rw [same]
      exact .refl machine
  | run count =>
      cases count with
      | zero => exact .refl machine
      | succ count =>
          have same : (machine.perform (.run (count + 1))).machine = machine := by
            simp only [perform, run_succ_of_error refused]
            exact step_of_error refused
          rw [same]
          exact .refl machine
  | tick => exact ⟨_, _, _, rfl⟩
  | hold key? => exact ⟨_, _, _, rfl⟩
  | press key =>
      -- The key is held before the step is refused, and stays.
      have held : machine.KeepsProgram (machine.hold (some key)) := ⟨_, _, _, rfl⟩
      have same : (machine.perform (.press key)).machine = machine.hold (some key) :=
        step_of_error (held.answer_step refused)
      rw [same]
      exact held

theorem answer_perform (refused : machine.step.answer = .error fault) {request : Request}
    (asks : request.AsksForStep) : (machine.perform request).answer = .error fault := by
  cases request with
  | load | loadImage | tick | hold => cases asks
  | step => exact congrArg (Except.map some) refused
  | run count =>
      obtain ⟨more, rfl⟩ := Nat.exists_eq_add_of_le' asks
      simp only [perform, run_succ_of_error refused]
      exact congrArg (Except.map some) refused
  | press key =>
      have held : machine.KeepsProgram (machine.hold (some key)) := ⟨_, _, _, rfl⟩
      exact congrArg (Except.map some) (held.answer_step refused)

theorem keepsProgram_performAll (refused : machine.step.answer = .error fault)
    {requests : List Request} (loadNothing : ∀ request ∈ requests, request.LoadsNothing) :
    machine.KeepsProgram (machine.performAll requests) := by
  induction requests generalizing machine with
  | nil => exact .refl machine
  | cons request rest ih =>
      have first := keepsProgram_perform refused (loadNothing request List.mem_cons_self)
      have later := ih (first.answer_step refused)
        fun other asked => loadNothing other (List.mem_cons_of_mem _ asked)
      exact first.trans later

theorem answer_of_mem_replies (refused : machine.step.answer = .error fault)
    {requests : List Request} (loadNothing : ∀ request ∈ requests, request.LoadsNothing)
    {request : Request} {reply : Reply}
    (replied : (request, reply) ∈ requests.zip (machine.replies requests))
    (asks : request.AsksForStep) : reply.answer = .error fault := by
  induction requests generalizing machine with
  | nil => cases replied
  | cons first rest ih =>
      rw [replies, List.zip_cons_cons] at replied
      rcases List.mem_cons.mp replied with here | later
      · cases here
        exact answer_perform refused asks
      · have kept := keepsProgram_perform refused (loadNothing first List.mem_cons_self)
        exact ih (kept.answer_step refused)
          (fun other asked => loadNothing other (List.mem_cons_of_mem _ asked)) later

/-- A machine whose next step faults gives the same fault whenever it is asked to go on, and at no
time differs from what it was but in its timers and its held key, until a program is loaded. -/
theorem faults_last (refused : machine.step.answer = .error fault) {requests : List Request}
    (loadNothing : ∀ request ∈ requests, request.LoadsNothing) :
    (∀ request reply, (request, reply) ∈ requests.zip (machine.replies requests) →
      request.AsksForStep → reply.answer = .error fault) ∧
    ∀ earlier, earlier <+: requests →
      ∃ delay sound held?,
        machine.performAll earlier = machine.withPeripherals delay sound held? := by
  refine ⟨fun _ _ => answer_of_mem_replies refused loadNothing, fun earlier start => ?_⟩
  exact keepsProgram_performAll refused fun request asked =>
    loadNothing request (start.subset asked)

/-- A second call at a limit of one, with a delay that runs out and keys that come and go. -/
theorem faults_last_overflow :
    let blank : Machine Slots := powerOn ⟨1, some 0⟩ (Vector.replicate 8 0)
    let machine := blank.performAll [.load [0x6102, 0xF115, 0x2204], .run 3]
    let requests : List Request := [.step, .hold (some ⟨3, by decide⟩), .tick, .run 4,
      .press ⟨9, by decide⟩, .load (List.replicate 1793 0), .hold none, .run 0, .tick, .step]
    machine.step.answer = .error (.stackOverflow 2) ∧
      (∀ request ∈ requests, request.LoadsNothing) ∧
      (∀ request reply, (request, reply) ∈ requests.zip (machine.replies requests) →
        request.AsksForStep → reply.answer = .error (.stackOverflow 2)) ∧
      ∀ earlier, earlier <+: requests →
        ∃ delay sound held?,
          machine.performAll earlier = machine.withPeripherals delay sound held? := by
  intro blank machine requests
  have refused : machine.step.answer = .error (.stackOverflow 2) := by decide +kernel
  have loadNothing : ∀ request ∈ requests, request.LoadsNothing := by
    intro request asked program loads
    simp only [requests, List.mem_cons, List.not_mem_nil, or_false] at asked
    rcases asked with rfl | rfl | rfl | rfl | rfl | rfl | rfl | rfl | rfl | rfl <;> cases loads
    rw [List.length_replicate]
    decide
  exact ⟨refused, loadNothing, faults_last refused loadNothing⟩

end

end Machine

end Chip8
