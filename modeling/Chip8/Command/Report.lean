import Chip8.Command.Invocation
import Chip8.Command.Record
import Chip8.Disassembly
import Chip8.Pacing

/-!
# What the command does and says

An invocation and the contents of its file lead to an outcome. The report of an outcome is an exit
code and what is printed: records of the log among plain text. A run prints the screen once it has
loaded its image, also when a fault ends it. Complaints about the arguments come before the usage
text and have an exit code of their own.
-/

namespace Chip8

inductive ReadFailure where
  | notFound
  | isDirectory
  | other (text : String)
  deriving DecidableEq, Repr

def ReadFailure.message : ReadFailure → String
  | .notFound => "No such file or directory (os error 2)"
  | .isDirectory => "Is a directory (os error 21)"
  | .other text => text

/-- A run of a loaded image. -/
structure Trial where
  file : String
  size : Nat
  steps : Nat
  rate : Rate
  loading : List Event
  paced : Paced Slots

inductive Outcome where
  | unknown
  | unreadable (complaint : Complaint)
  | noContents (failure : ReadFailure)
  | disassembled (image : Image)
  | notLoaded (fault : Fault)
  | tried (trial : Trial)

namespace Outcome

/-- The command shows no single instructions, and gathers no event that is not shown. -/
def keeps (threshold : Threshold) (event : Event) : Bool :=
  match event with
  | .executing _ _ => false
  | _ => threshold.shows event.level

def ofRun (threshold : Threshold) (entropy : Random.CipherKey) (file : String) (steps : Nat)
    (rate : Rate) (image : Image) : Outcome :=
  let loading := (Machine.powerOn {} entropy : Machine Slots).loadImage image
  match loading.answer with
  | .error fault => .notLoaded fault
  | .ok () =>
      let pace : Pace := ⟨rate.stepsPerTick, keeps threshold⟩
      .tried
        { file := file
          size := image.length
          steps := steps
          rate := rate
          loading := loading.events
          paced := pace.run loading.machine steps }

def ofInvocation (threshold : Threshold) (entropy : Random.CipherKey) (invocation : Invocation)
    (contents : Except ReadFailure Image) : Outcome :=
  match invocation with
  | .unknown => .unknown
  | .unreadable complaint => .unreadable complaint
  | .disassemble _ =>
      match contents with
      | .error failure => .noContents failure
      | .ok image => .disassembled image
  | .run file steps rate =>
      match contents with
      | .error failure => .noContents failure
      | .ok image => ofRun threshold entropy file steps rate image

end Outcome

inductive Output where
  | log (entry : Record)
  | plain (text : String)
  deriving DecidableEq, Repr

def Output.line? (threshold : Threshold) : Output → Option String
  | .log entry => if threshold.shows entry.level then some entry.line else none
  | .plain text => some text

structure Report where
  code : Nat
  output : List Output
  deriving DecidableEq, Repr

/-- What is printed, each followed by a line feed. -/
def Report.lines (threshold : Threshold) (report : Report) : List String :=
  report.output.filterMap (Output.line? threshold)

namespace Report

def version : String := "0.1.0"

def usage : List Output :=
  [.plain ("Chip8 v" ++ version), .plain "
usage: chip8 CMD FILE [STEPS] [HZ]

commands:
    run     Run the target ROM file headless, then print the display
    dis     Disassemble the target ROM into readable assembly

options:
    STEPS   Number of instructions to execute (default 1000)
    HZ      Instruction rate the timers are paced against (default 500)

examples:
    chip8 run maze.ch8
    chip8 run maze.ch8 5000 700
    chip8 dis maze.ch8
"]

def said (level : Level) (text : String) : Output :=
  .log ⟨level, .command, text⟩

def told (events : List Event) : List Output :=
  events.map fun event => .log (.ofEvent event)

def failed (message : String) : Output :=
  said .error ("application error: " ++ message)

end Report

namespace Trial

def opening (trial : Trial) : Output :=
  Report.said .info
    ("running " ++ trial.file ++ " for " ++ toString trial.steps ++ " steps at " ++
      toString trial.rate.hertz ++ " Hz (" ++ toString trial.size ++ " bytes)")

def picture (trial : Trial) : Output :=
  .plain trial.paced.machine.screen.picture

def closing (trial : Trial) (milliseconds : String) : List Output :=
  [Report.said .info
    ("executed " ++ toString trial.paced.executed ++ " steps in " ++ milliseconds ++ "ms"),
    trial.picture]

def counterText (trial : Trial) : String :=
  "0x" ++ Hex.capitals 4 trial.paced.machine.counter

def report (trial : Trial) (milliseconds : String) : Report :=
  let begun := Report.told trial.loading ++ trial.opening :: Report.told trial.paced.events
  match trial.paced.ending with
  | .ok .running => ⟨0, begun ++ trial.closing milliseconds⟩
  | .ok .awaitingKey =>
      let stopped := "program is waiting for a key at " ++ trial.counterText ++ ", stopping"
      ⟨0, begun ++ Report.said .warn stopped :: trial.closing milliseconds⟩
  | .error fault =>
      let halted := "execution halted at " ++ trial.counterText ++ ": " ++ fault.message
      ⟨1, begun ++ [Report.said .error halted, trial.picture, Report.failed fault.message]⟩

end Trial

/-- The time that a run took is measured by the host and given as text. -/
def Outcome.report (outcome : Outcome) (milliseconds : String) : Report :=
  match outcome with
  | .unknown => ⟨64, Report.usage⟩
  | .unreadable complaint => ⟨64, Report.failed complaint.message :: Report.usage⟩
  | .noContents failure => ⟨1, [Report.failed failure.message]⟩
  | .disassembled image => ⟨0, image.disassembly.map fun line => .plain line.text⟩
  | .notLoaded fault => ⟨1, [Report.failed fault.message]⟩
  | .tried trial => trial.report milliseconds

end Chip8
