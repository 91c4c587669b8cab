import Mathlib.Control.Monad.Basic
import Chip8.Proofs.CallStack
import Chip8.Proofs.Machine.Surroundings

/-!
# Sixteen cells and a list

A machine that keeps its return addresses in sixteen cells goes on exactly like one that keeps them
in a list of at most as many addresses as its limit allows. A popped address stays in its cell, but
no request ever shows it: what lies above the live cells has no influence.
-/

namespace Chip8

/-- The same surroundings, but for the live addresses in a list. -/
structure Surroundings.Listed (cells : Surroundings Slots) (list : Surroundings (List UInt16)) :
    Prop where
  live_le : cells.calls.live ≤ 16
  calls_eq : list.calls = cells.calls.toList
  random_eq : list.random = cells.random
  config_eq : list.config = cells.config

theorem Surroundings.coupling_listed : Surroundings.Coupling Surroundings.Listed where
  clear listed :=
    ⟨Nat.zero_le 16, Slots.toList_empty.symm, listed.random_eq, listed.config_eq⟩
  push {cells list} listed address := by
    rw [listed.calls_eq, listed.config_eq, Slots.pushWithin_toList listed.live_le]
    cases accepted : CallStack.pushWithin cells.config.stackLimit cells.calls address with
    | error fault => exact .error fault
    | ok pushed =>
        exact .ok ⟨Slots.live_le_of_pushWithin accepted, rfl, listed.random_eq, rfl⟩
  pop {cells list} listed := by
    rw [listed.calls_eq, Slots.pop_toList listed.live_le]
    cases taken : CallStack.pop cells.calls with
    | error fault => exact .error fault
    | ok popped =>
        have fits := Slots.live_le_of_pop listed.live_le taken
        exact .ok ⟨rfl, fits, rfl, listed.random_eq, listed.config_eq⟩
  draw listed := by
    rw [listed.random_eq]
    exact ⟨rfl, listed.live_le, listed.calls_eq, rfl, listed.config_eq⟩

namespace Machine

/-- The list is that of the live addresses, and all else is the same. -/
structure Represents (cells : Machine Slots) (list : Machine (List UInt16)) : Prop where
  live_le : cells.calls.live ≤ 16
  list_eq : list = { cells with calls := cells.calls.toList }

theorem alike_listed_iff {cells : Machine Slots} {list : Machine (List UInt16)} :
    cells.Alike Surroundings.Listed list ↔ cells.Represents list := by
  constructor
  · rintro ⟨⟨calls, random, config⟩, listed, rfl⟩
    obtain ⟨fits, rfl, rfl, rfl⟩ := listed
    exact ⟨fits, rfl⟩
  · rintro ⟨fits, rfl⟩
    exact ⟨⟨cells.calls.toList, cells.random, cells.config⟩, ⟨fits, rfl, rfl, rfl⟩, rfl⟩

theorem Represents.performAll {cells : Machine Slots} {list : Machine (List UInt16)}
    (represents : cells.Represents list) (requests : List Request) :
    cells.replies requests = list.replies requests ∧
      (cells.performAll requests).Represents (list.performAll requests) := by
  have alike := alike_listed_iff.mpr represents
  obtain ⟨replies, later⟩ := alike.performAll Surroundings.coupling_listed requests
  exact ⟨replies, alike_listed_iff.mp later⟩

theorem Represents.depth_eq {cells : Machine Slots} {list : Machine (List UInt16)}
    (represents : cells.Represents list) : list.depth = cells.depth := by
  obtain ⟨fits, rfl⟩ := represents
  exact Slots.length_toList fits

/-- A call adds the address after it to a list of fewer addresses than the limit, and a return goes
to the last address and takes it off. -/
structure KeepsBoundedList (list : Machine (List UInt16)) : Prop where
  call_eq : ∀ address : Address, list.execute (.call address) =
    if list.calls.length < list.config.stackLimit then
      .running ({ list with
        calls := list.calls ++ [UInt16.ofNat (list.counter + 2)] }.goTo address)
    else
      .refused (.stackOverflow (list.calls.length + 1)) list
  leave_eq : list.execute .leave =
    match list.calls.getLast? with
    | none => .refused .stackUnderflow list
    | some address =>
        .running ({ list with calls := list.calls.dropLast }.goTo address.toNat)

theorem keepsBoundedList_of_le {list : Machine (List UInt16)}
    (allowed : list.config.stackLimit ≤ 16) : list.KeepsBoundedList where
  call_eq address := by
    simp only [execute, CallStack.pushWithin, Nat.min_eq_left allowed, CallStack.depth]
    by_cases room : list.calls.length < list.config.stackLimit
    · rw [if_pos room, if_pos room]
      rfl
    · rw [if_neg room, if_neg room]
  leave_eq := by
    simp only [execute, CallStack.pop, CallStack.pop?]
    cases list.calls.getLast? with
    | none => rfl
    | some address => rfl

theorem represents_ofConfig (config : Config) (entropy : Random.CipherKey) :
    Concordant Represents (ofConfig config entropy) (ofConfig config entropy) := by
  unfold ofConfig
  split
  · have empty : (powerOn config entropy : Machine Slots).calls.toList = [] := Slots.toList_empty
    refine .ok ⟨Nat.zero_le 16, ?_⟩
    rw [empty]
    rfl
  · exact .error _

/-- The machines differ at most in cells above the live ones. -/
structure AgreesOnLive (first second : Machine Slots) : Prop where
  live_eq : first.calls.live = second.calls.live
  cells_eq : ∀ place (inside : place < 16), place < first.calls.live →
    first.calls.cells[place] = second.calls.cells[place]
  rest_eq : { first with calls := second.calls } = second

theorem AgreesOnLive.represents {first second : Machine Slots} (agrees : first.AgreesOnLive second)
    (fits : first.calls.live ≤ 16) :
    second.Represents { first with calls := first.calls.toList } where
  live_le := agrees.live_eq ▸ fits
  list_eq := by
    have listed := (Slots.toList_eq_iff fits agrees.live_eq).mpr agrees.cells_eq
    rw [listed, ← agrees.rest_eq]

theorem Represents.agreesOnLive {first second : Machine Slots} {list : Machine (List UInt16)}
    (represents : first.Represents list) (other : second.Represents list) :
    first.AgreesOnLive second := by
  -- The list fixes how many cells are live and what they hold, and all that is not a call stack.
  have same := represents.list_eq.symm.trans other.list_eq
  have listed : first.calls.toList = second.calls.toList :=
    congrArg (fun list => list.calls) same
  have live : first.calls.live = second.calls.live := by
    rw [← Slots.length_toList represents.live_le, listed, Slots.length_toList other.live_le]
  refine ⟨live, (Slots.toList_eq_iff represents.live_le live).mp listed, ?_⟩
  exact congrArg (fun list => ({ list with calls := second.calls } : Machine Slots)) same

theorem AgreesOnLive.performAll {first second : Machine Slots} (agrees : first.AgreesOnLive second)
    (fits : first.calls.live ≤ 16) (requests : List Request) :
    first.replies requests = second.replies requests ∧
      (first.performAll requests).AgreesOnLive (second.performAll requests) := by
  have represents : first.Represents { first with calls := first.calls.toList } := ⟨fits, rfl⟩
  obtain ⟨replies, later⟩ := represents.performAll requests
  obtain ⟨otherReplies, otherLater⟩ := (agrees.represents fits).performAll requests
  exact ⟨replies.trans otherReplies.symm, later.agreesOnLive otherLater⟩

/-- Sixteen cells do what a bounded list does, from power on and whatever is asked. -/
theorem cells_refine_list :
    (∀ config entropy, Concordant Represents (ofConfig config entropy)
      (ofConfig config entropy)) ∧
    (∀ list : Machine (List UInt16), list.config.stackLimit ≤ 16 → list.KeepsBoundedList) ∧
    (∀ cells list, Represents cells list → ∀ requests,
      cells.replies requests = list.replies requests ∧
        (cells.performAll requests).Represents (list.performAll requests) ∧
        (cells.performAll requests).depth = (list.performAll requests).depth) ∧
    ∀ first second : Machine Slots, first.calls.live ≤ 16 → first.AgreesOnLive second →
      ∀ requests, first.replies requests = second.replies requests ∧
        (first.performAll requests).AgreesOnLive (second.performAll requests) := by
  refine ⟨represents_ofConfig, fun _ => keepsBoundedList_of_le, ?_, ?_⟩
  · intro cells list represents requests
    obtain ⟨replies, later⟩ := represents.performAll requests
    exact ⟨replies, later, later.depth_eq.symm⟩
  · intro first second fits agrees requests
    exact agrees.performAll fits requests

/-- After a return the popped address is still in its cell, where another machine has zero. Both
are asked to return once more, and to call past the limit after a load. -/
theorem cells_refine_list_after_return :
    let blank : Machine Slots := powerOn ⟨1, some 3⟩ (Vector.replicate 8 0)
    let used := blank.performAll [.load [0x2204, 0x0000, 0x00EE], .run 2]
    let fresh : Machine Slots := { used with calls := CallStack.empty }
    let list : Machine (List UInt16) := { used with calls := used.calls.toList }
    let requests : List Request :=
      [.loadImage (List.replicate 3585 0), .step, .step, .press ⟨9, by decide⟩, .tick,
        .load [0x2200], .run 9]
    (used.calls.cells ≠ fresh.calls.cells ∧ used.calls.live ≤ 16 ∧ used.AgreesOnLive fresh ∧
      used.replies requests = fresh.replies requests ∧
      (used.performAll requests).AgreesOnLive (fresh.performAll requests)) ∧
    (used.Represents list ∧ used.replies requests = list.replies requests ∧
      (used.performAll requests).Represents (list.performAll requests)) ∧
    (list.config.stackLimit ≤ 16 ∧ list.KeepsBoundedList) := by
  intro blank used fresh list requests
  have apart : used.calls.cells ≠ fresh.calls.cells := by decide +kernel
  have live : used.calls.live = 0 := by decide +kernel
  have limit : list.config.stackLimit ≤ 16 := by decide +kernel
  have fits : used.calls.live ≤ 16 := live ▸ Nat.zero_le 16
  have agrees : used.AgreesOnLive fresh := by
    refine ⟨live, fun place _ below => ?_, rfl⟩
    rw [live] at below
    exact absurd below (Nat.not_lt_zero place)
  have represents : used.Represents list := ⟨fits, rfl⟩
  obtain ⟨_, bounded, lists, deadCells⟩ := cells_refine_list
  obtain ⟨replies, later, _⟩ := lists used list represents requests
  obtain ⟨sameReplies, stillAgrees⟩ := deadCells used fresh fits agrees requests
  exact ⟨⟨apart, fits, agrees, sameReplies, stillAgrees⟩, ⟨represents, replies, later⟩, limit,
    bounded list limit⟩

end Machine

end Chip8
