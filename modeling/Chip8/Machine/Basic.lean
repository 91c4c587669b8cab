import Chip8.CallStack
import Chip8.Key
import Chip8.Log
import Chip8.Memory
import Chip8.Random.Source
import Chip8.Screen

/-!
# The machine

The core is what a program can change and what loading one clears. The source of random bytes and
the configuration belong to the machine itself and outlive its programs. The type of the call
stack is a parameter.

A turn is what comes of asking something of the machine: an answer or a fault, the machine
afterwards, and the events told meanwhile.
-/

namespace Chip8

structure Config where
  stackLimit : Nat := 16
  /-- Without a seed the random bytes come from the host's entropy. -/
  seed? : Option UInt64 := none
  deriving DecidableEq, Repr

structure Core (σ : Type) where
  counter : Nat
  index : UInt16
  registers : Vector UInt8 16
  delay : UInt8
  sound : UInt8
  /-- The key that the host holds down, until a program takes it. -/
  held? : Option Key
  waiting : Bool
  memory : Memory
  screen : Screen
  calls : σ
  deriving DecidableEq

structure Machine (σ : Type) extends Core σ where
  random : Random.Source
  config : Config
  deriving DecidableEq

inductive Status where
  | running
  | awaitingKey
  deriving DecidableEq, Repr

structure Turn (σ α : Type) where
  answer : Except Fault α
  machine : Machine σ
  events : List Event

namespace Turn

variable {σ α : Type}

def running (machine : Machine σ) : Turn σ Status :=
  ⟨.ok .running, machine, []⟩

def refused (fault : Fault) (machine : Machine σ) : Turn σ α :=
  ⟨.error fault, machine, []⟩

def map {β : Type} (convert : α → β) (turn : Turn σ α) : Turn σ β :=
  ⟨turn.answer.map convert, turn.machine, turn.events⟩

/-- The same turn with an earlier event. -/
def after (event : Event) (turn : Turn σ α) : Turn σ α :=
  { turn with events := event :: turn.events }

end Turn

variable {σ : Type} [CallStack σ]

def Core.initial : Core σ where
  counter := Memory.programStart
  index := 0
  registers := Vector.replicate 16 0
  delay := 0
  sound := 0
  held? := none
  waiting := false
  memory := Memory.blank
  screen := Screen.blank
  calls := CallStack.empty

/-- Every register, cell and latch back to its value at power on. -/
def Core.reset (core : Core σ) : Core σ :=
  { core with
    memory := Memory.blank
    calls := CallStack.empty
    screen := Screen.blank
    registers := Vector.replicate 16 0
    counter := Memory.programStart
    index := 0
    delay := 0
    sound := 0
    waiting := false
    held? := none }

@[simp]
theorem Core.reset_eq_initial (core : Core σ) : core.reset = .initial := rfl

namespace Machine

def powerOn (config : Config) (entropy : Random.CipherKey) : Machine σ where
  toCore := .initial
  random :=
    match config.seed? with
    | some seed => .ofSeed seed
    | none => .ofKey entropy
  config := config

def ofConfig (config : Config) (entropy : Random.CipherKey) : Except Fault (Machine σ) :=
  if 1 ≤ config.stackLimit ∧ config.stackLimit ≤ 16 then
    .ok (powerOn config entropy)
  else
    .error .stackLimitOutOfRange

variable (machine : Machine σ)

def depth : Nat :=
  CallStack.depth machine.calls

def register (number : Nat) : UInt8 :=
  machine.registers[Register.ofNat number]

def buzzing : Bool :=
  machine.sound != 0

end Machine

end Chip8
