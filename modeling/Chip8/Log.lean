import Chip8.Instruction.Mnemonic

/-!
# The log

What the machine tells of its work, each event with a level and a text. An instruction is told
before it is carried out, so also when it then fails.
-/

namespace Chip8

/-- From the most urgent to the most detailed. -/
inductive Level where
  | error
  | warn
  | info
  | debug
  | trace
  deriving DecidableEq, Repr

namespace Level

def name : Level → String
  | .error => "ERROR"
  | .warn => "WARN"
  | .info => "INFO"
  | .debug => "DEBUG"
  | .trace => "TRACE"

def detail : Level → Nat
  | .error => 1
  | .warn => 2
  | .info => 3
  | .debug => 4
  | .trace => 5

end Level

inductive Event where
  | loaded (words : Nat)
  | executing (counter : Nat) (instruction : Instruction)
  | ignoredRoutine (address : Address)
  | awaitingKey (counter : Nat)
  deriving DecidableEq, Repr

namespace Event

def level : Event → Level
  | .loaded _ | .ignoredRoutine _ => .debug
  | .executing _ _ | .awaitingKey _ => .trace

def message : Event → String
  | .loaded words => "loaded program of " ++ toString words ++ " words"
  | .executing counter instruction => Hex.capitals 4 counter ++ ": " ++ instruction.mnemonic
  | .ignoredRoutine address =>
      "ignoring machine code routine call 0x" ++ Hex.capitals 3 address
  | .awaitingKey counter => "waiting for key at 0x" ++ Hex.capitals 4 counter

end Event

end Chip8
