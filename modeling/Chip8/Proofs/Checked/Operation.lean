import Mathlib.Control.Monad.Basic
import Chip8.Memory

/-!
# Checked operations

Operations on numbers of sixty-four bits and on arrays that stop with a trap where they are not
defined: at an index or a slice outside its array, at a copy between slices of different lengths, at
a shift by the whole width or more, and at a sum, product or difference that is no such number. Each
has the condition under which it goes on, and with what.
-/

namespace Chip8

inductive Trap where
  | index (place size : Nat)
  | slice (start stop size : Nat)
  | copy (target source : Nat)
  | shift (width amount : Nat)
  | overflow
  | underflow
  deriving DecidableEq, Repr

namespace Checked

def numberBound : Nat := 0x10000000000000000

def add (first second : Nat) : Except Trap Nat :=
  if first + second < numberBound then .ok (first + second) else .error .overflow

def multiply (first second : Nat) : Except Trap Nat :=
  if first * second < numberBound then .ok (first * second) else .error .overflow

def subtract (first second : Nat) : Except Trap Nat :=
  if second ≤ first then .ok (first - second) else .error .underflow

/-- The bits that leave the width are for the caller to drop. -/
def shiftLeft (width value amount : Nat) : Except Trap Nat :=
  if amount < width then .ok (value <<< amount) else .error (.shift width amount)

def shiftRight (width value amount : Nat) : Except Trap Nat :=
  if amount < width then .ok (value >>> amount) else .error (.shift width amount)

/-- The places in the machine's arrays are far from the bound, and so are their sums. -/
theorem lt_numberBound {number : Nat} (small : number < 0x20000) : number < numberBound :=
  Nat.lt_trans small (by decide)

@[simp]
theorem add_of_lt {first second : Nat} (small : first + second < numberBound) :
    add first second = .ok (first + second) :=
  if_pos small

@[simp]
theorem multiply_of_lt {first second : Nat} (small : first * second < numberBound) :
    multiply first second = .ok (first * second) :=
  if_pos small

@[simp]
theorem subtract_of_le {first second : Nat} (le : second ≤ first) :
    subtract first second = .ok (first - second) :=
  if_pos le

@[simp]
theorem shiftLeft_of_lt {width amount : Nat} (narrow : amount < width) (value : Nat) :
    shiftLeft width value amount = .ok (value <<< amount) :=
  if_pos narrow

@[simp]
theorem shiftRight_of_lt {width amount : Nat} (narrow : amount < width) (value : Nat) :
    shiftRight width value amount = .ok (value >>> amount) :=
  if_pos narrow

section

variable {α : Type}

def fetch (cells : List α) (place : Nat) : Except Trap α :=
  match cells[place]? with
  | some cell => .ok cell
  | none => .error (.index place cells.length)

def put {size : Nat} (cells : Vector α size) (place : Nat) (cell : α) :
    Except Trap (Vector α size) :=
  if inside : place < size then .ok (cells.set place cell) else .error (.index place size)

def putItem (cells : List α) (place : Nat) (cell : α) : Except Trap (List α) :=
  if place < cells.length then .ok (cells.set place cell) else .error (.index place cells.length)

def slice (cells : List α) (start stop : Nat) : Except Trap (List α) :=
  if start ≤ stop ∧ stop ≤ cells.length then
    .ok ((cells.take stop).drop start)
  else
    .error (.slice start stop cells.length)

/-- What the target holds once the source is copied over it. -/
def copy (target source : List α) : Except Trap (List α) :=
  if target.length = source.length then .ok source else .error (.copy target.length source.length)

theorem fetch_of_getElem? {cells : List α} {place : Nat} {cell : α}
    (found : cells[place]? = some cell) : fetch cells place = .ok cell := by
  rw [fetch, found]

@[simp]
theorem put_of_lt {size place : Nat} (inside : place < size) (cells : Vector α size) (cell : α) :
    put cells place cell = .ok (cells.set place cell) :=
  dif_pos inside

theorem slice_of_le {cells : List α} {start stop : Nat} (ordered : start ≤ stop)
    (inside : stop ≤ cells.length) :
    slice cells start stop = .ok ((cells.take stop).drop start) :=
  if_pos ⟨ordered, inside⟩

theorem slice_zero {cells : List α} {stop : Nat} (inside : stop ≤ cells.length) :
    slice cells 0 stop = .ok (cells.take stop) :=
  slice_of_le (Nat.zero_le stop) inside

theorem copy_of_eq {target source : List α} (same : target.length = source.length) :
    copy target source = .ok source :=
  if_pos same

@[simp]
theorem fetch_toList {size place : Nat} (cells : Vector α size) (inside : place < size) :
    fetch cells.toList place = .ok cells[place] := by
  apply fetch_of_getElem?
  simp [inside]

end

section

variable {α β : Type}

@[simp]
theorem ok_bind (value : α) (next : α → Except Trap β) : (Except.ok value >>= next) = next value :=
  rfl

@[simp]
theorem pure_eq_ok (value : α) : (pure value : Except Trap α) = .ok value :=
  rfl

/-- A loop whose body goes on at each of its items, whatever the state by then. -/
theorem foldlM_eq_ok {body : β → α → Except Trap β} {step : β → α → β} {items : List α}
    (goesOn : ∀ item ∈ items, ∀ state, body state item = .ok (step state item)) (start : β) :
    items.foldlM body start = .ok (items.foldl step start) := by
  induction items generalizing start with
  | nil => rfl
  | cons item rest ih =>
      rw [List.foldlM_cons, goesOn item List.mem_cons_self, ok_bind, List.foldl_cons]
      exact ih (fun other later => goesOn other (List.mem_cons_of_mem _ later)) _

theorem mapM_eq_ok {body : α → Except Trap β} {value : α → β} {items : List α}
    (goesOn : ∀ item ∈ items, body item = .ok (value item)) :
    items.mapM body = .ok (items.map value) := by
  induction items with
  | nil => rfl
  | cons item rest ih =>
      rw [List.mapM_cons, goesOn item List.mem_cons_self, ok_bind,
        ih fun other later => goesOn other (List.mem_cons_of_mem _ later)]
      rfl

end

end Checked

end Chip8
