import Chip8.Command.Elapsed
import Chip8.Command.Report

/-!
# The command

Reads the arguments, the file they name, the log setting `RUST_LOG` and the clock, and prints the
report.
-/

namespace Chip8

def readImage (file : String) : IO (Except ReadFailure Image) := do
  try
    return .ok (← IO.FS.readBinFile file).toList
  catch failure =>
    match failure with
    | .noFileOrDirectory _ _ _ => return .error .notFound
    | .inappropriateType _ 21 _ => return .error .isDirectory
    | _ => return .error (.other (toString failure))

def readContents (invocation : Invocation) : IO (Except ReadFailure Image) :=
  match invocation.file? with
  | none => return .error .notFound
  | some file => readImage file

def gatherEntropy : IO Random.CipherKey := do
  let bytes ← IO.getRandomBytes 32
  return Vector.ofFn fun place : Fin 8 =>
    let byte offset := (bytes.data[4 * place.val + offset]?.getD 0).toUInt32
    byte 0 ||| (byte 1 <<< 8) ||| (byte 2 <<< 16) ||| (byte 3 <<< 24)

end Chip8

open Chip8 in
def main (arguments : List String) : IO UInt32 := do
  let threshold := Threshold.ofSetting (← IO.getEnv "RUST_LOG")
  let invocation := Invocation.ofArguments arguments
  let contents ← readContents invocation
  let entropy ← gatherEntropy
  let begun ← IO.monoNanosNow
  let outcome ← IO.lazyPure fun _ => Outcome.ofInvocation threshold entropy invocation contents
  let ended ← IO.monoNanosNow
  let report := outcome.report (Elapsed.milliseconds (ended - begun))
  for line in report.lines threshold do
    IO.println line
  return UInt32.ofNat report.code
