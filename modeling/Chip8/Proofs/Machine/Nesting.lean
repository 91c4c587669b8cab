import Mathlib.Control.Monad.Basic
import Chip8.Proofs.Machine.Soundness

/-!
# Calls return to where they were made

While the address that a call keeps is still live, whatever lies under it on the stack is live too.
One step can only put an address on top or take the top one off, so the first moment at which the
stack is as low as before the call is the one that goes back. Only a load that succeeds could empty
the stack in between.
-/

namespace Chip8.Machine

/-- The kept address stays where it is, with all that lies under it, until control goes to it. -/
theorem Transfer.nested {machine : Machine Slots} (fits : machine.calls.live ≤ 16)
    {below : List UInt16} {kept : UInt16} (live : below ++ [kept] <+: machine.calls.toList)
    {counter : Nat} {calls : Slots} (transfer : machine.Transfer counter calls) :
    below ++ [kept] <+: calls.toList ∨ (calls.toList = below ∧ counter = kept.toNat) := by
  cases transfer with
  | stay | next | skip | jump | jumpFrom => exact .inl live
  | call address room =>
      have free : machine.calls.live < 16 := Nat.lt_of_lt_of_le room (Nat.min_le_right _ _)
      rw [Slots.toList_push free]
      exact .inl (live.trans (List.prefix_append _ _))
  | leave popped =>
      rw [Slots.toList_of_pop? fits popped, List.prefix_concat_iff] at live
      rcases live with same | deeper
      · obtain ⟨under, top⟩ := List.append_inj' same rfl
        cases top
        exact .inr ⟨under.symm, rfl⟩
      · exact .inl deeper

theorem step_nested {machine : Machine Slots} (fits : machine.calls.live ≤ 16)
    {below : List UInt16} {kept : UInt16} (live : below ++ [kept] <+: machine.calls.toList) :
    below ++ [kept] <+: machine.step.machine.calls.toList ∨
      (machine.step.machine.calls.toList = below ∧
        machine.step.machine.counter = kept.toNat) := by
  rcases machine.step_cases with ⟨_, _, refused⟩ | ⟨_, _, _, effect, taken⟩
  · rw [refused]
    exact .inl live
  · rw [taken]
    exact effect.transfer.nested fits live

theorem first_return {machine : Machine Slots} (sound : machine.Sound) {below : List UInt16}
    {kept : UInt16} (live : below ++ [kept] <+: machine.calls.toList) {moves : List Move}
    (loadsNothing : ∀ program, .load program ∈ moves → Memory.programCapacity < program.length)
    {returned : Machine Slots}
    (first : (machine.moments moves).find? (fun moment => moment.depth == below.length) =
      some returned) :
    returned.calls.toList = below ∧ returned.counter = kept.toNat := by
  induction moves generalizing machine with
  | nil => cases first
  | cons move rest ih =>
      have restLoadsNothing : ∀ program, .load program ∈ rest →
          Memory.programCapacity < program.length :=
        fun program listed => loadsNothing program (List.mem_cons_of_mem _ listed)
      cases move with
      | load program =>
          have unmoved : machine.make (.load program) = machine := by
            rw [make, load_of_lt (loadsNothing program List.mem_cons_self), Turn.refused]
          have same : machine.moments (.load program :: rest) = machine.moments rest :=
            congrArg (fun later => later.moments rest) unmoved
          rw [same] at first
          exact ih sound live restLoadsNothing first
      | tick => exact ih (sound.make .tick) live restLoadsNothing first
      | hold key? => exact ih (sound.make (.hold key?)) live restLoadsNothing first
      | step =>
          have depth := sound.step.length_calls
          rw [moments] at first
          rcases step_nested sound.live_le live with deeper | ⟨under, counter⟩
          · have above := deeper.length_le
            rw [List.length_append, List.length_singleton, depth] at above
            rw [List.find?_cons_of_neg] at first
            · exact ih sound.step deeper restLoadsNothing first
            · simp only [beq_iff_eq]
              omega
          · rw [under] at depth
            rw [List.find?_cons_of_pos] at first
            · cases first
              exact ⟨under, counter⟩
            · simp only [beq_iff_eq, depth]

theorem calls_step_of_call {machine : Machine Slots} {address : Address}
    (decoded : machine.upcoming = .ok (.call address))
    (called : machine.step.answer = .ok .running) :
    machine.step.machine.calls.toList =
      machine.calls.toList ++ [UInt16.ofNat (machine.counter + 2)] := by
  rcases machine.step_cases with ⟨_, refused, _⟩ | ⟨instruction, turn, same, effect, taken⟩
  · cases decoded.symm.trans refused
  · cases decoded.symm.trans same
    rw [taken] at called ⊢
    cases effect with
    | refuse => cases called
    | call _ room => exact Slots.toList_push (Nat.lt_of_lt_of_le room (Nat.min_le_right _ _)) _
    | skip kind | calculate kind | store kind => cases kind

/-- The first moment after a call at which the stack is as deep as it was before goes on right
after the call, with the same addresses live. -/
theorem call_returns {machine : Machine Slots} (reachable : machine.Reachable) {address : Address}
    (decoded : machine.upcoming = .ok (.call address))
    (called : machine.step.answer = .ok .running) {requests : List Request}
    (loadsNothing : ∀ request ∈ requests, request.LoadsNothing) {returned : Machine Slots}
    (first : (machine.step.machine.moments (machine.step.machine.movesAll requests)).find?
      (fun moment => moment.depth == machine.depth) = some returned) :
    returned.counter = machine.counter + 2 ∧ returned.calls.toList = machine.calls.toList := by
  have live : machine.calls.toList ++ [UInt16.ofNat (machine.counter + 2)] <+:
      machine.step.machine.calls.toList :=
    ⟨[], by rw [List.append_nil, calls_step_of_call decoded called]⟩
  have movesLoadNothing : ∀ program, .load program ∈ machine.step.machine.movesAll requests →
      Memory.programCapacity < program.length := by
    intro program listed
    obtain ⟨request, asked, loads⟩ := load_mem_movesAll listed
    exact loadsNothing request asked program loads
  rw [← reachable.sound.length_calls] at first
  obtain ⟨under, counter⟩ := first_return reachable.sound.step live movesLoadNothing first
  exact ⟨counter.trans (toNat_return_address (counter_lt_of_upcoming decoded)), under⟩

/-- A subroutine that calls another, which waits for a key, while the host meddles. -/
theorem call_returns_nested :
    let blank : Machine Slots := powerOn {} (Vector.replicate 8 0)
    let machine := blank.performAll
      [.load [0x2204, 0x1202, 0x2208, 0x00EE, 0xF10A, 0x00EE]]
    let requests : List Request :=
      [.run 2, .tick, .load (List.replicate 1793 0), .step, .press ⟨7, by decide⟩, .run 5]
    machine.Reachable ∧ machine.upcoming = .ok (.call ⟨0x204, by decide⟩) ∧
      machine.step.answer = .ok .running ∧ (∀ request ∈ requests, request.LoadsNothing) ∧
      ∃ returned,
        (machine.step.machine.moments (machine.step.machine.movesAll requests)).find?
          (fun moment => moment.depth == machine.depth) = some returned ∧
        returned.counter = machine.counter + 2 ∧ returned.calls.toList = machine.calls.toList := by
  intro blank machine requests
  have accepted : ofConfig {} (Vector.replicate 8 0) = .ok blank := rfl
  have reachable : machine.Reachable := (Reachable.powerOn accepted).performAll _
  have decoded : machine.upcoming = .ok (.call ⟨0x204, by decide⟩) := by decide +kernel
  have called : machine.step.answer = .ok .running := by decide +kernel
  have loadsNothing : ∀ request ∈ requests, request.LoadsNothing := by
    intro request asked program loads
    simp only [requests, List.mem_cons, List.not_mem_nil, or_false] at asked
    rcases asked with rfl | rfl | rfl | rfl | rfl | rfl <;> cases loads
    rw [List.length_replicate]
    decide
  have returns : ((machine.step.machine.moments (machine.step.machine.movesAll requests)).find?
      (fun moment => moment.depth == machine.depth)).isSome := by
    decide +kernel
  obtain ⟨returned, first⟩ := Option.isSome_iff_exists.mp returns
  exact ⟨reachable, decoded, called, loadsNothing, returned, first,
    call_returns reachable decoded called loadsNothing first⟩

end Chip8.Machine
