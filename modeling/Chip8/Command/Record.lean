import Chip8.Log

/-!
# Records

A record of the log has a level, an origin and a text, and is written on one line with the level
padded to five columns. A threshold shows the records up to a level, or none.
-/

namespace Chip8

inductive Origin where
  | command
  | machine
  deriving DecidableEq, Repr

def Origin.name : Origin → String
  | .command => "chip8"
  | .machine => "chip8::vm"

structure Record where
  level : Level
  origin : Origin
  text : String
  deriving DecidableEq, Repr

namespace Record

def line (entry : Record) : String :=
  let level := String.ofList (entry.level.name.toList.rightpad 5 ' ')
  level ++ " [" ++ entry.origin.name ++ "] " ++ entry.text

def ofEvent (event : Event) : Record :=
  ⟨event.level, .machine, event.message⟩

end Record

inductive Threshold where
  | off
  | upTo (level : Level)
  deriving DecidableEq, Repr

namespace Threshold

def standard : Threshold := .upTo .info

/-- The name of a level or `off`, in letters of either case. -/
def ofText? (text : String) : Option Threshold :=
  match text.toLower with
  | "off" => some .off
  | "error" => some (.upTo .error)
  | "warn" => some (.upTo .warn)
  | "info" => some (.upTo .info)
  | "debug" => some (.upTo .debug)
  | "trace" => some (.upTo .trace)
  | _ => none

/-- A setting that names no threshold counts as not made. -/
def ofSetting (setting? : Option String) : Threshold :=
  (setting?.bind ofText?).getD standard

def shows : Threshold → Level → Bool
  | .off, _ => false
  | .upTo limit, level => level.detail ≤ limit.detail

end Threshold

end Chip8
