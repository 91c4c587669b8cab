import Mathlib.Control.Monad.Basic
import Chip8.Proofs.Machine.KeyWait

/-!
# Keys are delivered at most once

The key that a program waits for is the last one that the host gave, with nothing in between that
takes, replaces or clears it. A program that takes a key leaves none behind, so it takes no more
keys than the host gives. Skips look at the held key, and ticks, faults and refused loads leave it
where it is.
-/

namespace Chip8

def Instruction.awaitsKey : Instruction → Bool
  | .awaitKey _ => true
  | _ => false

def Move.givesKey : Move → Bool
  | .hold key? => key?.isSome
  | _ => false

namespace Occasion

variable {σ : Type} [CallStack σ] {occasion : Occasion σ}

/-- Whether a program that waited for a key goes on with it. -/
def takesKey (occasion : Occasion σ) : Bool :=
  occasion.completed?.any Instruction.awaitsKey

theorem takesKey_iff :
    occasion.takesKey = true ↔ ∃ x, occasion.completed? = some (.awaitKey x) := by
  rw [takesKey, Option.any_eq_true]
  constructor
  · rintro ⟨instruction, completed, awaits⟩
    cases instruction with
    | awaitKey x => exact ⟨x, completed⟩
    | _ => cases awaits
  · rintro ⟨x, completed⟩
    exact ⟨_, completed, rfl⟩

/-- A tick, a load that is refused, or a step that takes no key. -/
def LeavesKey (occasion : Occasion σ) : Prop :=
  match occasion.move with
  | .load program => Memory.programCapacity < program.length
  | .step => occasion.takesKey = false
  | .tick => True
  | .hold _ => False

end Occasion

namespace Machine

variable {σ : Type} [CallStack σ] {machine : Machine σ}

theorem Effect.held?_eq {instruction : Instruction} {turn : Turn σ Status}
    (effect : machine.Effect instruction turn)
    (takesNone : turn.answer = .ok .running → instruction.awaitsKey = false) :
    turn.machine.held? = machine.held? := by
  cases effect with
  | take => cases takesNone rfl
  | skip =>
      rw [skipWhen_eq]
      rfl
  | _ => rfl

theorem held?_step (takesNone : Occasion.takesKey ⟨machine, .step⟩ = false) :
    machine.step.machine.held? = machine.held? := by
  rcases machine.step_cases_completed with
    ⟨_, refused⟩ | ⟨instruction, turn, effect, taken, completed⟩
  · rw [refused]
    rfl
  · rw [taken]
    refine effect.held?_eq fun running => ?_
    rw [Occasion.takesKey, completed running] at takesNone
    exact takesNone

theorem held?_make {move : Move} (leaves : Occasion.LeavesKey ⟨machine, move⟩) :
    (machine.make move).held? = machine.held? := by
  cases move with
  | load program =>
      rw [make, load_of_lt leaves]
      rfl
  | step => exact held?_step leaves
  | tick => rfl
  | hold => cases leaves

/-- A program that goes on had a key to go on with, and leaves none. -/
theorem step_of_takesKey {x : Register}
    (completed : Occasion.completed? ⟨machine, .step⟩ = some (.awaitKey x)) :
    ∃ key, machine.held? = some key ∧ machine.step.machine.held? = none ∧
      machine.step.machine.registers.get x = key.toByte := by
  obtain ⟨_, decoded, running⟩ := Occasion.completed?_eq_some_iff.mp completed
  cases held : machine.held? with
  | none =>
      have parks := (step_of_not_held decoded held).1
      cases parks.symm.trans running
  | some key =>
      refine ⟨key, rfl, ?_, ?_⟩
      · rw [(step_of_held decoded held).2]
        rfl
      · rw [(step_of_held decoded held).2]
        exact Vector.getElem_set_self x.isLt

/-- The key was given last, and on all occasions since it was left where it is. -/
def LastGiven (key : Key) (made : List (Occasion σ)) : Prop :=
  ∃ earlier given since, made = earlier ++ given :: since ∧ given.move = .hold (some key) ∧
    ∀ other ∈ since, other.LeavesKey

theorem LastGiven.leave {key : Key} {made : List (Occasion σ)} (last : LastGiven key made)
    {here : Occasion σ} (leaves : here.LeavesKey) : LastGiven key (made ++ [here]) := by
  obtain ⟨earlier, given, since, rfl, gives, left⟩ := last
  refine ⟨earlier, given, since ++ [here], ?_, gives, fun other among => ?_⟩
  · rw [List.append_assoc, List.cons_append]
  · rcases List.mem_append.mp among with before | now
    · exact left other before
    · rw [List.mem_singleton.mp now]
      exact leaves

/-- The held key was given last, and each key given was taken at most once. -/
structure AccountsForKeys (made : List (Occasion σ)) (machine : Machine σ) : Prop where
  lastGiven : ∀ key, machine.held? = some key → LastGiven key made
  taken_le : made.countP Occasion.takesKey + machine.held?.toList.length ≤
    (made.map Occasion.move).countP Move.givesKey

theorem countP_concat {α : Type} (p : α → Bool) (entries : List α) (last : α) :
    (entries ++ [last]).countP p = entries.countP p + (p last).toNat := by
  rw [List.countP_append, List.countP_singleton]
  cases p last
  · rfl
  · rfl

namespace AccountsForKeys

variable {made : List (Occasion σ)}

/-- A move that takes a key finds one held, and a key is held after it only if it was before or the
move gives it. -/
theorem concat (accounts : AccountsForKeys made machine) {here : Occasion σ} {later : Machine σ}
    (lastGiven : ∀ key, later.held? = some key → LastGiven key (made ++ [here]))
    (balance : here.takesKey.toNat + later.held?.toList.length ≤
      machine.held?.toList.length + here.move.givesKey.toNat) :
    AccountsForKeys (made ++ [here]) later where
  lastGiven := lastGiven
  taken_le := by
    have before := accounts.taken_le
    rw [List.map_append, List.map_singleton, countP_concat, countP_concat]
    omega

theorem leave (accounts : AccountsForKeys made machine) {move : Move}
    (leaves : Occasion.LeavesKey ⟨machine, move⟩)
    (takesNone : Occasion.takesKey ⟨machine, move⟩ = false) :
    AccountsForKeys (made ++ [⟨machine, move⟩]) (machine.make move) := by
  have same := held?_make leaves
  refine accounts.concat (fun key held => ?_) ?_
  · rw [same] at held
    exact (accounts.lastGiven key held).leave leaves
  · rw [same, takesNone]
    exact Nat.le_trans (Nat.le_of_eq (Nat.zero_add _)) (Nat.le_add_right _ _)

theorem hold (accounts : AccountsForKeys made machine) (key? : Option Key) :
    AccountsForKeys (made ++ [⟨machine, .hold key?⟩]) (machine.hold key?) := by
  refine accounts.concat (fun key held => ?_) ?_
  · exact ⟨made, ⟨machine, .hold key?⟩, [], rfl, congrArg Move.hold held, nofun⟩
  · cases key? with
    | none => exact Nat.zero_le _
    | some key => exact Nat.le_add_left _ _

theorem clear (accounts : AccountsForKeys made machine) {move : Move}
    (emptied : (machine.make move).held? = none)
    (balance : (Occasion.takesKey ⟨machine, move⟩).toNat ≤ machine.held?.toList.length) :
    AccountsForKeys (made ++ [⟨machine, move⟩]) (machine.make move) := by
  refine accounts.concat (fun key held => ?_) ?_
  · cases emptied.symm.trans held
  · rw [emptied]
    exact Nat.le_trans balance (Nat.le_add_right _ _)

theorem make (accounts : AccountsForKeys made machine) (move : Move) :
    AccountsForKeys (made ++ [⟨machine, move⟩]) (machine.make move) := by
  cases move with
  | hold key? => exact accounts.hold key?
  | tick => exact accounts.leave trivial rfl
  | load program =>
      rcases Nat.lt_or_ge Memory.programCapacity program.length with large | fits
      · exact accounts.leave large rfl
      · refine accounts.clear ?_ (Nat.zero_le _)
        rw [Machine.make, load_of_le fits]
        rfl
  | step =>
      cases takes : Occasion.takesKey ⟨machine, .step⟩ with
      | false => exact accounts.leave takes takes
      | true =>
          obtain ⟨x, completed⟩ := Occasion.takesKey_iff.mp takes
          obtain ⟨key, held, emptied, _⟩ := step_of_takesKey completed
          refine accounts.clear emptied ?_
          rw [takes, held]
          exact Nat.le_refl 1

end AccountsForKeys

theorem countP_moves (machine : Machine σ) (request : Request) :
    (machine.moves request).countP Move.givesKey = request.key?.isSome.toNat := by
  cases request with
  | run count => simp [moves, List.countP_replicate, Move.givesKey, Request.key?]
  | hold key? => cases key? <;> rfl
  | _ => rfl

theorem countP_movesAll (machine : Machine σ) (requests : List Request) :
    (machine.movesAll requests).countP Move.givesKey =
      requests.countP fun request => request.key?.isSome := by
  induction requests generalizing machine with
  | nil => rfl
  | cons request rest ih =>
      rw [movesAll, List.countP_append, ih, countP_moves, List.countP_cons]
      cases request.key?.isSome
      · simp
      · simp [Nat.add_comm]

theorem accountsForKeys_of_ofConfig {config : Config} {entropy : Random.CipherKey}
    {start : Machine σ} (accepted : ofConfig config entropy = .ok start) :
    AccountsForKeys [] start := by
  unfold ofConfig at accepted
  split at accepted
  · cases accepted
    exact ⟨nofun, Nat.le_refl 0⟩
  · cases accepted

/-- From power on, a program that waited for a key goes on with the last one given, which nothing
has taken, replaced or cleared since; only the host and such a program change the held key; and no
more keys are taken than the host gives. -/
theorem keys_delivered_once {config : Config} {entropy : Random.CipherKey} {start : Machine σ}
    (accepted : ofConfig config entropy = .ok start) (requests : List Request) :
    (∀ before here after x, start.occasions requests = before ++ here :: after →
      here.completed? = some (.awaitKey x) →
      ∃ key, LastGiven key before ∧ (here.finish.registers.get x).toNat = key.val) ∧
    (∀ here ∈ start.occasions requests, here.LeavesKey →
      here.finish.held? = here.machine.held?) ∧
    (start.occasions requests).countP Occasion.takesKey ≤
      requests.countP fun request => request.key?.isSome := by
  have initial := accountsForKeys_of_ofConfig accepted
  refine ⟨?_, fun _ _ leaves => held?_make leaves, ?_⟩
  · intro before here after x split completed
    have accounts :=
      occasions_preserve_before (fun move accounts => accounts.make move) initial split
    obtain ⟨machine, move⟩ := here
    obtain ⟨rfl, _⟩ := Occasion.completed?_eq_some_iff.mp completed
    obtain ⟨key, held, _, register⟩ := step_of_takesKey completed
    refine ⟨key, accounts.lastGiven key held, ?_⟩
    rw [Occasion.finish, make, register]
    exact Key.toNat_toByte key
  · have accounts := occasions_preserve (fun move accounts => accounts.make move) initial requests
    have given := accounts.taken_le
    rw [occasions, map_move_history, countP_movesAll] at given
    exact Nat.le_trans (Nat.le_add_right _ _) given

/-- The second of two waits, after a key was taken by the first, a skip looked for it, and another
was held through a tick and a load that is too large. -/
theorem keys_delivered_once_second_wait :
    let start : Machine Slots := powerOn {} (Vector.replicate 8 0)
    let earlier : List Request := [.load [0xF10A, 0xE19E, 0xF20A], .step, .press ⟨7, by decide⟩,
      .step, .hold (some ⟨3, by decide⟩), .tick, .load (List.replicate 1793 0)]
    let requests := earlier ++ [.step]
    let here : Occasion Slots := ⟨start.performAll earlier, .step⟩
    ofConfig {} (Vector.replicate 8 0) = .ok start ∧
      start.occasions requests = start.occasions earlier ++ [here] ∧
      here.completed? = some (.awaitKey ⟨2, by decide⟩) ∧
      (∃ key, LastGiven key (start.occasions earlier) ∧
        (here.finish.registers.get ⟨2, by decide⟩).toNat = key.val) ∧
      (start.occasions requests).countP Occasion.takesKey ≤
        requests.countP fun request => request.key?.isSome := by
  intro start earlier requests here
  have accepted : ofConfig {} (Vector.replicate 8 0) = .ok start := rfl
  have split : start.occasions requests = start.occasions earlier ++ [here] :=
    start.occasions_append earlier [.step]
  have completed : here.completed? = some (.awaitKey ⟨2, by decide⟩) := by decide +kernel
  obtain ⟨delivered, _, bounded⟩ := keys_delivered_once accepted requests
  exact ⟨accepted, split, completed, delivered _ here [] _ split completed, bounded⟩

end Machine

end Chip8
