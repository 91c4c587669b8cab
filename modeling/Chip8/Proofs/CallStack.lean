import Chip8.CallStack

/-!
# Stacks of return addresses

How many addresses a stack lists, the stacks whose live addresses lie right after a word of memory,
and the stack operations seen through the list of live addresses: sixteen cells do what the list
does, whatever the cells above the live ones hold.
-/

namespace Chip8.Slots

theorem length_toList {slots : Slots} (fits : slots.live ≤ 16) :
    slots.toList.length = slots.live := by
  rw [toList, List.length_take, Vector.length_toList, Nat.min_eq_left fits]

theorem live_of_pop? {slots below : Slots} {address : UInt16}
    (popped : CallStack.pop? slots = some (address, below)) : slots.live = below.live + 1 := by
  obtain ⟨cells, live⟩ := slots
  cases live with
  | zero => simp [CallStack.pop?] at popped
  | succ count =>
      simp only [CallStack.pop?, Option.some.injEq, Prod.mk.injEq] at popped
      rw [← popped.2]

/-- A return address lies two bytes past a word inside memory. -/
structure Proper (limit : Nat) (slots : Slots) : Prop where
  live_le : slots.live ≤ limit
  address_mem : ∀ address ∈ slots.toList, 2 ≤ address.toNat ∧ address.toNat ≤ 0x1000

namespace Proper

variable {limit : Nat} {slots : Slots}

theorem empty (limit : Nat) : Proper limit CallStack.empty where
  live_le := Nat.zero_le limit
  address_mem address live := by
    rw [toList_empty] at live
    cases live

theorem push (proper : slots.Proper limit) (fits : limit ≤ 16) (room : slots.live < limit)
    {address : UInt16} (lower : 2 ≤ address.toNat) (upper : address.toNat ≤ 0x1000) :
    (CallStack.push slots address).Proper limit where
  live_le := room
  address_mem other live := by
    rw [toList_push (Nat.lt_of_lt_of_le room fits)] at live
    rcases List.mem_append.mp live with under | top
    · exact proper.address_mem other under
    · rw [List.mem_singleton.mp top]
      exact ⟨lower, upper⟩

theorem pop (proper : slots.Proper limit) (fits : limit ≤ 16) {below : Slots} {address : UInt16}
    (popped : CallStack.pop? slots = some (address, below)) :
    below.Proper limit ∧ 2 ≤ address.toNat ∧ address.toNat ≤ 0x1000 := by
  have listed := toList_of_pop? (Nat.le_trans proper.live_le fits) popped
  have held (other : UInt16) (live : other ∈ below.toList ++ [address]) :
      2 ≤ other.toNat ∧ other.toNat ≤ 0x1000 := by
    rw [← listed] at live
    exact proper.address_mem other live
  refine ⟨⟨?_, ?_⟩, ?_⟩
  · have := live_of_pop? popped
    have := proper.live_le
    omega
  · intro other live
    exact held other (List.mem_append_left _ live)
  · exact held address List.mem_concat_self

end Proper

theorem pushWithin_toList {slots : Slots} (fits : slots.live ≤ 16) (limit : Nat)
    (address : UInt16) :
    CallStack.pushWithin limit slots.toList address =
      (CallStack.pushWithin limit slots address).map toList := by
  have depth : CallStack.depth slots.toList = CallStack.depth slots := length_toList fits
  unfold CallStack.pushWithin
  rw [depth]
  split
  · next room =>
      have free : slots.live < 16 := Nat.lt_of_lt_of_le room (Nat.min_le_right _ _)
      rw [Except.map, toList_push free]
      rfl
  · rfl

theorem live_le_of_pushWithin {slots pushed : Slots} {limit : Nat} {address : UInt16}
    (accepted : CallStack.pushWithin limit slots address = .ok pushed) : pushed.live ≤ 16 := by
  unfold CallStack.pushWithin at accepted
  split at accepted
  · next room =>
      cases accepted
      exact Nat.lt_of_lt_of_le room (Nat.min_le_right _ _)
  · cases accepted

theorem pop_toList {slots : Slots} (fits : slots.live ≤ 16) :
    CallStack.pop slots.toList =
      (CallStack.pop slots).map fun popped => (popped.1, popped.2.toList) := by
  unfold CallStack.pop
  cases popped : CallStack.pop? slots with
  | none =>
      have empty : slots.toList = [] := by
        rw [toList, pop?_eq_none_iff.mp popped, List.take_zero]
      rw [empty]
      rfl
  | some top =>
      obtain ⟨address, below⟩ := top
      have listed : CallStack.pop? slots.toList = some (address, below.toList) := by
        rw [toList_of_pop? fits popped]
        simp [CallStack.pop?]
      rw [listed]
      rfl

theorem live_le_of_pop {slots below : Slots} (fits : slots.live ≤ 16) {address : UInt16}
    (taken : CallStack.pop slots = .ok (address, below)) : below.live ≤ 16 := by
  unfold CallStack.pop at taken
  cases popped : CallStack.pop? slots with
  | none =>
      rw [popped] at taken
      cases taken
  | some top =>
      rw [popped] at taken
      cases taken
      have := live_of_pop? popped
      omega

/-- Two stacks of one depth list the same addresses when their live cells agree. -/
theorem toList_eq_iff {first second : Slots} (fits : first.live ≤ 16)
    (depth : first.live = second.live) :
    first.toList = second.toList ↔
      ∀ place (inside : place < 16), place < first.live →
        first.cells[place] = second.cells[place] := by
  have length : first.toList.length = second.toList.length := by
    rw [length_toList fits, length_toList (depth ▸ fits), depth]
  constructor
  · intro same place inside below
    have here := congrArg (fun addresses => addresses[place]?) same
    simpa [toList, List.getElem?_take, below, depth ▸ below, inside] using here
  · intro cells
    refine List.ext_getElem length fun place listed _ => ?_
    rw [length_toList fits] at listed
    simpa [toList] using cells place (by omega) listed

end Chip8.Slots
