import Chip8.Command.Numeral
import Chip8.Rate

/-!
# Invocations

What the arguments of the command ask for. `run` takes a file and up to two numerals, the number
of steps and the rate; `dis` takes a file. Further arguments are ignored. A numeral that cannot be
read is a complaint that names its place; arguments of any other form ask for nothing.
-/

namespace Chip8

structure Complaint where
  place : String
  text : String
  defect : Numeral.Defect
  deriving DecidableEq, Repr

def Complaint.message (complaint : Complaint) : String :=
  "invalid argument: " ++ complaint.place ++ " '" ++ complaint.text ++ "': " ++
    complaint.defect.message

inductive Invocation where
  | unknown
  | unreadable (complaint : Complaint)
  | run (file : String) (steps : Nat) (rate : Rate)
  | disassemble (file : String)
  deriving DecidableEq, Repr

namespace Invocation

def defaultSteps : Nat := 1000

/-- The numeral at the front, if there is an argument. -/
def numeralOr (otherwise : Nat) (place : String) : List String → Except Complaint Nat
  | [] => .ok otherwise
  | text :: _ =>
      match Numeral.read text with
      | .ok value => .ok value
      | .error defect => .error ⟨place, text, defect⟩

def ofRunArguments (file : String) (rest : List String) : Invocation :=
  match numeralOr defaultSteps "STEPS" rest with
  | .error complaint => .unreadable complaint
  | .ok steps =>
      match numeralOr Rate.standard.hertz "HZ" rest.tail with
      | .error complaint => .unreadable complaint
      | .ok hertz => .run file steps ⟨hertz⟩

def ofArguments : List String → Invocation
  | "run" :: file :: rest => ofRunArguments file rest
  | "dis" :: file :: _ => .disassemble file
  | _ => .unknown

/-- The file that has to be read. -/
def file? : Invocation → Option String
  | .unknown | .unreadable _ => none
  | .run file _ _ | .disassemble file => some file

end Invocation

end Chip8
