import Chip8.Machine.Host
import Chip8.Rate

/-!
# Paced runs

A paced run steps until its budget is used up, a fault arises or the program waits for a key, and
ticks the timers whenever the steps so far are a multiple of the interval. In frames, the same is
to run one interval and tick, as often as the interval goes into the budget, and then to run what
is left.
-/

namespace Chip8

variable {σ : Type} [CallStack σ]

structure Paced (σ : Type) where
  /-- Why the run ended; `running` when the budget was used up. -/
  ending : Except Fault Status
  machine : Machine σ
  executed : Nat
  events : List Event

structure Pace where
  interval : Nat
  /-- The events to gather. -/
  keeps : Event → Bool

namespace Pace

/-- Runs on after some steps and the given events, newest first. -/
def runAfter (pace : Pace) (executed : Nat) (told : List Event) (machine : Machine σ) :
    Nat → Paced σ
  | 0 => ⟨.ok .running, machine, executed, told.reverse⟩
  | budget + 1 =>
      let turn := machine.step
      let told := (turn.events.filter pace.keeps).reverse ++ told
      match turn.answer with
      | .ok .running =>
          let executed := executed + 1
          let machine := if executed % pace.interval = 0 then turn.machine.tick else turn.machine
          pace.runAfter executed told machine budget
      | ending => ⟨ending, turn.machine, executed, told.reverse⟩

def run (pace : Pace) (machine : Machine σ) (budget : Nat) : Paced σ :=
  pace.runAfter 0 [] machine budget

end Pace

namespace Machine

def runFrame (machine : Machine σ) (interval : Nat) : Turn σ Status :=
  let turn := machine.run interval
  match turn.answer with
  | .ok .running => { turn with machine := turn.machine.tick }
  | _ => turn

def runFrames (machine : Machine σ) (interval : Nat) : Nat → Turn σ Status
  | 0 => .running machine
  | frames + 1 =>
      let turn := machine.runFrame interval
      match turn.answer with
      | .ok .running =>
          let rest := turn.machine.runFrames interval frames
          { rest with events := turn.events ++ rest.events }
      | _ => turn

def runInFrames (machine : Machine σ) (interval budget : Nat) : Turn σ Status :=
  let turn := machine.runFrames interval (budget / interval)
  match turn.answer with
  | .ok .running =>
      let rest := turn.machine.run (budget % interval)
      { rest with events := turn.events ++ rest.events }
  | _ => turn

end Machine

end Chip8
