import Chip8.Machine.Step

/-!
# What the host asks

The host loads programs, runs steps, counts the timers down and holds keys. A load that is refused
changes nothing; one that succeeds resets the core. A run stops early at a fault or at a wait for
a key. A request names one of these, and the reachable machines are those that requests lead to.
-/

namespace Chip8

namespace Machine

variable {σ : Type} [CallStack σ]

/-- The random bytes go on where they were. -/
def load (machine : Machine σ) (program : Program) : Turn σ Unit :=
  if program.length ≤ Memory.programCapacity then
    let core := machine.toCore.reset
    let memory := overwrite core.memory Memory.programStart program.image
    ⟨.ok (), { machine with toCore := { core with memory := memory } }, [.loaded program.length]⟩
  else
    .refused (.programTooLarge program.length) machine

def loadImage (machine : Machine σ) (image : Image) : Turn σ Unit :=
  machine.load image.words

/-- Both timers stop at zero. -/
def tick (machine : Machine σ) : Machine σ :=
  { machine with
    delay := if machine.delay = 0 then 0 else machine.delay - 1
    sound := if machine.sound = 0 then 0 else machine.sound - 1 }

def hold (machine : Machine σ) (key? : Option Key) : Machine σ :=
  { machine with held? := key? }

def press (machine : Machine σ) (key : Key) : Turn σ Status :=
  (machine.hold (some key)).step

/-- Runs on after the given events, newest first. -/
def runAfter (told : List Event) (machine : Machine σ) : Nat → Turn σ Status
  | 0 => ⟨.ok .running, machine, told.reverse⟩
  | count + 1 =>
      let turn := machine.step
      let told := turn.events.reverse ++ told
      match turn.answer with
      | .ok .running => turn.machine.runAfter told count
      | answer => ⟨answer, turn.machine, told.reverse⟩

def run (machine : Machine σ) (count : Nat) : Turn σ Status :=
  machine.runAfter [] count

theorem runAfter_eq (told : List Event) (machine : Machine σ) (count : Nat) :
    machine.runAfter told count =
      { machine.run count with events := told.reverse ++ (machine.run count).events } := by
  induction count generalizing told machine with
  | zero => simp [run, runAfter]
  | succ count ih =>
      rw [run, runAfter, runAfter]
      split
      · rw [ih (machine.step.events.reverse ++ told), ih (machine.step.events.reverse ++ [])]
        simp
      · simp

@[simp]
theorem run_zero (machine : Machine σ) : machine.run 0 = .running machine := rfl

theorem run_succ (machine : Machine σ) (count : Nat) :
    machine.run (count + 1) =
      match machine.step.answer with
      | .ok .running =>
          let rest := machine.step.machine.run count
          { rest with events := machine.step.events ++ rest.events }
      | _ => machine.step := by
  rw [run, runAfter]
  split
  · rw [runAfter_eq]
    simp_all
  · simp_all

end Machine

inductive Request where
  | load (program : Program)
  | loadImage (image : Image)
  | step
  | run (count : Nat)
  | tick
  | hold (key? : Option Key)
  | press (key : Key)
  deriving DecidableEq, Repr

namespace Machine

variable {σ : Type} [CallStack σ]

/-- Requests that do not step have no status to answer with. -/
def perform (machine : Machine σ) (request : Request) : Turn σ (Option Status) :=
  match request with
  | .load program => (machine.load program).map fun _ => none
  | .loadImage image => (machine.loadImage image).map fun _ => none
  | .step => machine.step.map some
  | .run count => (machine.run count).map some
  | .tick => ⟨.ok none, machine.tick, []⟩
  | .hold key? => ⟨.ok none, machine.hold key?, []⟩
  | .press key => (machine.press key).map some

inductive Reachable : Machine σ → Prop where
  | powerOn {config : Config} {entropy : Random.CipherKey} {machine : Machine σ}
      (accepted : ofConfig config entropy = .ok machine) : Reachable machine
  | perform {machine : Machine σ} (reachable : Reachable machine) (request : Request) :
      Reachable (machine.perform request).machine

end Machine

end Chip8
