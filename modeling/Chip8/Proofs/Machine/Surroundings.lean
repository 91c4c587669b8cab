import Chip8.Proofs.Machine.Run

/-!
# Machines in different surroundings

The call stack, the random bytes to come and the configuration surround the rest of a machine. An
instruction that calls, returns or draws a random byte looks at its surroundings; every other
instruction does the same in all of them and leaves them as they are. So a relation between
surroundings that those three instructions and a load keep is kept by every request, and machines
that are alike in all else give equal replies.
-/

namespace Chip8

structure Surroundings (σ : Type) where
  calls : σ
  random : Random.Source
  config : Config

/-- The same fault, or two values that the relation relates. -/
inductive Concordant {α β : Type} (R : α → β → Prop) : Except Fault α → Except Fault β → Prop where
  | ok {first : α} {second : β} (related : R first second) : Concordant R (.ok first) (.ok second)
  | error (fault : Fault) : Concordant R (.error fault) (.error fault)

namespace Turn

variable {σ τ α β : Type} {R : Machine σ → Machine τ → Prop}

structure Agrees (R : Machine σ → Machine τ → Prop) (first : Turn σ α) (second : Turn τ α) :
    Prop where
  answer_eq : first.answer = second.answer
  events_eq : first.events = second.events
  related : R first.machine second.machine

theorem Agrees.after {first : Turn σ α} {second : Turn τ α} (agrees : first.Agrees R second)
    (event : Event) : (first.after event).Agrees R (second.after event) :=
  ⟨agrees.answer_eq, congrArg (event :: ·) agrees.events_eq, agrees.related⟩

theorem Agrees.map {first : Turn σ α} {second : Turn τ α} (agrees : first.Agrees R second)
    (convert : α → β) : (first.map convert).Agrees R (second.map convert) :=
  ⟨congrArg (Except.map convert) agrees.answer_eq, agrees.events_eq, agrees.related⟩

end Turn

def Instruction.looksAround : Instruction → Bool
  | .leave | .call _ | .random _ _ => true
  | _ => false

namespace Machine

section

variable {σ τ : Type}

def surroundings (machine : Machine σ) : Surroundings σ :=
  ⟨machine.calls, machine.random, machine.config⟩

def within (machine : Machine σ) (around : Surroundings τ) : Machine τ :=
  { machine with calls := around.calls, random := around.random, config := around.config }

theorem skipWhen_within (machine : Machine σ) (around : Surroundings τ) (condition : Bool) :
    (machine.within around).skipWhen condition = (machine.skipWhen condition).within around := by
  cases condition
  · rfl
  · rfl

theorem combine_within (machine : Machine σ) (around : Surroundings τ) (combination : Combination)
    (x y : Register) :
    (machine.within around).combine combination x y =
      (machine.combine combination x y).within around := by
  simp only [combine, within]
  cases (combination.apply machine.registers[x] machine.registers[y]).flag? with
  | none => rfl
  | some flag => rfl

theorem store_within (machine : Machine σ) (around : Surroundings τ) (bytes : List UInt8) :
    (machine.store bytes).Agrees (fun first second => second = first.within around)
      ((machine.within around).store bytes) := by
  simp only [store, within]
  cases machine.memory.write machine.index.toNat bytes with
  | error fault => exact ⟨rfl, rfl, rfl⟩
  | ok memory => exact ⟨rfl, rfl, rfl⟩

end

variable {σ τ : Type} [CallStack σ] [CallStack τ]

theorem execute_within (machine : Machine σ) (around : Surroundings τ) {instruction : Instruction}
    (inward : instruction.looksAround = false) :
    (machine.execute instruction).Agrees (fun first second => second = first.within around)
      ((machine.within around).execute instruction) := by
  cases instruction with
  | leave | call | random => cases inward
  | skipIfByte | skipUnlessByte | skipIfSame | skipUnlessSame | skipIfHeld | skipUnlessHeld =>
      exact ⟨rfl, rfl, machine.skipWhen_within around _⟩
  | combine combination x y =>
      exact ⟨rfl, rfl, congrArg advance (machine.combine_within around combination x y)⟩
  | draw x y rows =>
      simp only [execute, within]
      cases machine.memory.read machine.index.toNat rows with
      | error fault => exact ⟨rfl, rfl, rfl⟩
      | ok sprite => exact ⟨rfl, rfl, rfl⟩
  | loadRegisters x =>
      simp only [execute, within]
      cases machine.memory.read machine.index.toNat (x + 1) with
      | error fault => exact ⟨rfl, rfl, rfl⟩
      | ok bytes => exact ⟨rfl, rfl, rfl⟩
  | storeDecimal | storeRegisters => exact machine.store_within around _
  | awaitKey x =>
      simp only [execute, within]
      cases machine.held? with
      | none => exact ⟨rfl, rfl, rfl⟩
      | some key => exact ⟨rfl, rfl, rfl⟩
  | _ => exact ⟨rfl, rfl, rfl⟩

theorem surroundings_execute (machine : Machine σ) {instruction : Instruction}
    (inward : instruction.looksAround = false) :
    (machine.execute instruction).machine.surroundings = machine.surroundings := by
  have unmoved : (machine.execute instruction).machine =
      (machine.execute instruction).machine.within machine.surroundings :=
    (machine.execute_within machine.surroundings inward).related
  rw [unmoved]
  rfl

end Machine

/-! ## Coupled surroundings -/

/-- What a relation between surroundings needs for machines to go on alike in them. -/
structure Surroundings.Coupling {σ τ : Type} [CallStack σ] [CallStack τ]
    (Q : Surroundings σ → Surroundings τ → Prop) : Prop where
  clear : ∀ {first second}, Q first second →
    Q { first with calls := CallStack.empty } { second with calls := CallStack.empty }
  push : ∀ {first second}, Q first second → ∀ address, Concordant
    (fun pushed other => Q { first with calls := pushed } { second with calls := other })
    (CallStack.pushWithin first.config.stackLimit first.calls address)
    (CallStack.pushWithin second.config.stackLimit second.calls address)
  pop : ∀ {first second}, Q first second → Concordant
    (fun popped other => popped.1 = other.1 ∧
      Q { first with calls := popped.2 } { second with calls := other.2 })
    (CallStack.pop first.calls) (CallStack.pop second.calls)
  draw : ∀ {first second}, Q first second →
    first.random.next.1 = second.random.next.1 ∧
      Q { first with random := first.random.next.2 } { second with random := second.random.next.2 }

namespace Machine

variable {σ τ : Type}

/-- The machines differ in their surroundings alone, which are related. -/
def Alike (Q : Surroundings σ → Surroundings τ → Prop) (first : Machine σ) (second : Machine τ) :
    Prop :=
  ∃ around, Q first.surroundings around ∧ second = first.within around

theorem drawRandom_eq (machine : Machine σ) (x : Register) (mask : UInt8) :
    machine.drawRandom x mask =
      { machine with random := machine.random.next.2 }.setRegister x
        (mask &&& machine.random.next.1) := rfl

namespace Alike

variable {Q : Surroundings σ → Surroundings τ → Prop} {first : Machine σ} {second : Machine τ}

theorem upcoming_eq (alike : first.Alike Q second) : second.upcoming = first.upcoming := by
  obtain ⟨around, _, rfl⟩ := alike
  rfl

theorem counter_eq (alike : first.Alike Q second) : second.counter = first.counter := by
  obtain ⟨around, _, rfl⟩ := alike
  rfl

theorem tick (alike : first.Alike Q second) : first.tick.Alike Q second.tick := by
  obtain ⟨around, related, rfl⟩ := alike
  exact ⟨around, related, rfl⟩

theorem hold (alike : first.Alike Q second) (key? : Option Key) :
    (first.hold key?).Alike Q (second.hold key?) := by
  obtain ⟨around, related, rfl⟩ := alike
  exact ⟨around, related, rfl⟩

variable [CallStack σ] [CallStack τ]

theorem execute_inward (alike : first.Alike Q second) {instruction : Instruction}
    (inward : instruction.looksAround = false) :
    (first.execute instruction).Agrees (Alike Q) (second.execute instruction) := by
  obtain ⟨around, related, rfl⟩ := alike
  have agrees := first.execute_within around inward
  refine ⟨agrees.answer_eq, agrees.events_eq, around, ?_, agrees.related⟩
  rw [first.surroundings_execute inward]
  exact related

variable (coupling : Surroundings.Coupling Q)
include coupling

theorem execute_leave (alike : first.Alike Q second) :
    (first.execute .leave).Agrees (Alike Q) (second.execute .leave) := by
  obtain ⟨around, related, rfl⟩ := alike
  have popped := coupling.pop related
  simp only [Machine.execute, within, surroundings] at popped ⊢
  -- The pops become variables, for their concordance to be split into its cases.
  generalize CallStack.pop first.calls = top at popped ⊢
  generalize CallStack.pop around.calls = other at popped ⊢
  cases popped with
  | error fault => exact ⟨rfl, rfl, around, related, rfl⟩
  | ok same =>
      obtain ⟨address, kept⟩ := same
      refine ⟨rfl, rfl, _, kept, ?_⟩
      simp only [address]
      rfl

theorem execute_call (alike : first.Alike Q second) (address : Address) :
    (first.execute (.call address)).Agrees (Alike Q) (second.execute (.call address)) := by
  obtain ⟨around, related, rfl⟩ := alike
  have pushed := coupling.push related (UInt16.ofNat (first.counter + 2))
  simp only [Machine.execute, within, surroundings] at pushed ⊢
  generalize CallStack.pushWithin first.config.stackLimit first.calls _ = calls at pushed ⊢
  generalize CallStack.pushWithin around.config.stackLimit around.calls _ = other at pushed ⊢
  cases pushed with
  | error fault => exact ⟨rfl, rfl, around, related, rfl⟩
  | ok kept => exact ⟨rfl, rfl, _, kept, rfl⟩

theorem execute_random (alike : first.Alike Q second) (x : Register) (mask : UInt8) :
    (first.execute (.random x mask)).Agrees (Alike Q) (second.execute (.random x mask)) := by
  obtain ⟨around, related, rfl⟩ := alike
  obtain ⟨byte, kept⟩ := coupling.draw related
  simp only [Machine.execute, drawRandom_eq, within, surroundings] at byte kept ⊢
  rw [← byte]
  exact ⟨rfl, rfl, _, kept, rfl⟩

theorem execute (alike : first.Alike Q second) (instruction : Instruction) :
    (first.execute instruction).Agrees (Alike Q) (second.execute instruction) := by
  cases looks : instruction.looksAround with
  | false => exact alike.execute_inward looks
  | true =>
      cases instruction with
      | leave => exact alike.execute_leave coupling
      | call address => exact alike.execute_call coupling address
      | random x mask => exact alike.execute_random coupling x mask
      | _ => cases looks

theorem step (alike : first.Alike Q second) : first.step.Agrees (Alike Q) second.step := by
  simp only [Machine.step, alike.upcoming_eq, alike.counter_eq]
  cases first.upcoming with
  | error fault => exact ⟨rfl, rfl, alike⟩
  | ok instruction => exact (alike.execute coupling instruction).after _

theorem load (alike : first.Alike Q second) (program : Program) :
    (first.load program).Agrees (Alike Q) (second.load program) := by
  unfold Machine.load
  split
  · obtain ⟨around, related, rfl⟩ := alike
    exact ⟨rfl, rfl, _, coupling.clear related, rfl⟩
  · exact ⟨rfl, rfl, alike⟩

theorem run (alike : first.Alike Q second) (count : Nat) :
    (first.run count).Agrees (Alike Q) (second.run count) := by
  induction count generalizing first second with
  | zero => exact ⟨rfl, rfl, alike⟩
  | succ count ih =>
      have stepped := alike.step coupling
      by_cases goesOn : first.step.answer = .ok .running
      · have rest := ih stepped.related
        simp only [run_succ, goesOn, ← stepped.answer_eq, ← stepped.events_eq]
        exact ⟨rest.answer_eq, congrArg (first.step.events ++ ·) rest.events_eq, rest.related⟩
      · have otherStops : second.step.answer ≠ .ok .running := stepped.answer_eq ▸ goesOn
        rw [run_succ_of_stop goesOn, run_succ_of_stop otherStops]
        exact stepped

theorem perform (alike : first.Alike Q second) (request : Request) :
    (first.perform request).Agrees (Alike Q) (second.perform request) := by
  cases request with
  | load program => exact (alike.load coupling program).map _
  | loadImage image => exact (alike.load coupling image.words).map _
  | step => exact (alike.step coupling).map _
  | run count => exact (alike.run coupling count).map _
  | tick => exact ⟨rfl, rfl, alike.tick⟩
  | hold key? => exact ⟨rfl, rfl, alike.hold key?⟩
  | press key => exact ((alike.hold (some key)).step coupling).map _

theorem performAll (alike : first.Alike Q second) (requests : List Request) :
    first.replies requests = second.replies requests ∧
      (first.performAll requests).Alike Q (second.performAll requests) := by
  induction requests generalizing first second with
  | nil => exact ⟨rfl, alike⟩
  | cons request rest ih =>
      have performed := alike.perform coupling request
      obtain ⟨replies, later⟩ := ih performed.related
      refine ⟨?_, later⟩
      simp only [Machine.replies, performed.answer_eq, performed.events_eq, replies]

end Alike

end Machine

end Chip8
