/-!
# Elapsed time

A time in milliseconds, exact to the nanosecond, with no zeros at the end of its fraction.
-/

namespace Chip8.Elapsed

def fraction (nanoseconds : Nat) : List Char :=
  let digits := (Nat.toDigits 10 (nanoseconds % 1000000)).leftpad 6 '0'
  (digits.reverse.dropWhile (· == '0')).reverse

def milliseconds (nanoseconds : Nat) : String :=
  let whole := toString (nanoseconds / 1000000)
  match fraction nanoseconds with
  | [] => whole
  | digits => whole ++ "." ++ String.ofList digits

end Chip8.Elapsed
