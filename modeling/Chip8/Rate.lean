/-!
# Rates

How fast instructions are to follow each other, in hertz. The timers count at sixty hertz, so a
rate says how many steps pass between two ticks: at least one, however slow the rate.
-/

namespace Chip8

structure Rate where
  hertz : Nat
  deriving DecidableEq, Repr

namespace Rate

def standard : Rate := ⟨500⟩

def timerHertz : Nat := 60

def nanosecondsPerSecond : Nat := 1000000000

def stepsPerTick (rate : Rate) : Nat :=
  max (rate.hertz / timerHertz) 1

/-- Nanoseconds from one step to the next; a rate of zero has no delay. -/
def period (rate : Rate) : Nat :=
  if rate.hertz = 0 then 0 else nanosecondsPerSecond / rate.hertz

theorem stepsPerTick_pos (rate : Rate) : 0 < rate.stepsPerTick :=
  Nat.lt_of_lt_of_le Nat.zero_lt_one (Nat.le_max_right _ _)

end Rate

end Chip8
