import Chip8.Fault

/-!
# The call stack

Return addresses, last in first out. The machine needs four operations of its stack, so it is
written over any type that has them. `Slots` keeps sixteen cells and a count of the live ones, and
a popped address stays in its cell until a later push covers it; the list of live addresses is the
same stack with nothing left behind. A push is refused at the configured limit, which never
exceeds the sixteen cells.
-/

namespace Chip8

class CallStack (σ : Type) where
  empty : σ
  depth : σ → Nat
  push : σ → UInt16 → σ
  pop? : σ → Option (UInt16 × σ)

namespace CallStack

variable {σ : Type} [CallStack σ]

def pushWithin (limit : Nat) (calls : σ) (address : UInt16) : Except Fault σ :=
  if depth calls < min limit 16 then
    .ok (push calls address)
  else
    .error (.stackOverflow (depth calls + 1))

def pop (calls : σ) : Except Fault (UInt16 × σ) :=
  match pop? calls with
  | none => .error .stackUnderflow
  | some popped => .ok popped

end CallStack

structure Slots where
  cells : Vector UInt16 16
  live : Nat
  deriving DecidableEq

instance : CallStack Slots where
  empty := ⟨Vector.replicate 16 0, 0⟩
  depth slots := slots.live
  push slots address := ⟨slots.cells.setIfInBounds slots.live address, slots.live + 1⟩
  pop? slots :=
    match slots.live with
    | 0 => none
    | below + 1 => some (slots.cells[below]?.getD 0, ⟨slots.cells, below⟩)

namespace Slots

/-- The live addresses, oldest first. -/
def toList (slots : Slots) : List UInt16 :=
  slots.cells.toList.take slots.live

@[simp]
theorem toList_empty : (CallStack.empty : Slots).toList = [] := by
  simp [toList, CallStack.empty]

theorem toList_push {slots : Slots} (room : slots.live < 16) (address : UInt16) :
    (CallStack.push slots address).toList = slots.toList ++ [address] := by
  have listed : slots.live < slots.cells.toList.length := by simpa using room
  have kept : (slots.cells.toList.set slots.live address).take slots.live =
      slots.cells.toList.take slots.live := by
    rw [List.take_set_of_le (Nat.le_refl _)]
  simp only [toList, CallStack.push, Vector.toList_setIfInBounds]
  rw [List.take_add_one, kept, List.getElem?_set_self listed]
  rfl

theorem pop?_eq_none_iff {slots : Slots} :
    CallStack.pop? slots = none ↔ slots.live = 0 := by
  cases slots with
  | mk cells live => cases live <;> simp [CallStack.pop?]

theorem toList_of_pop? {slots below : Slots} {address : UInt16} (fits : slots.live ≤ 16)
    (popped : CallStack.pop? slots = some (address, below)) :
    slots.toList = below.toList ++ [address] := by
  cases slots with
  | mk cells live =>
      cases live with
      | zero => simp [CallStack.pop?] at popped
      | succ count =>
          simp only [CallStack.pop?, Option.some.injEq, Prod.mk.injEq] at popped
          obtain ⟨rfl, rfl⟩ := popped
          have inside : count < 16 := fits
          simp only [toList]
          rw [List.take_add_one]
          simp [inside]

end Slots

/-- The addresses themselves, oldest first. -/
instance : CallStack (List UInt16) where
  empty := []
  depth := List.length
  push addresses address := addresses ++ [address]
  pop? addresses := addresses.getLast?.map fun address => (address, addresses.dropLast)

end Chip8
