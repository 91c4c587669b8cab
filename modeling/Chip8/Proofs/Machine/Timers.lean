import Mathlib.Control.Monad.Basic
import Chip8.Proofs.Machine.Atomicity
import Chip8.Proofs.Machine.Footprint

/-!
# Timers hold what was set, less the ticks since

A timer is set by an instruction that completes, from a register, and by a load that succeeds, to
zero. Between two settings nothing but ticks moves it, and it does not go below zero. So what it
holds is given by the last setting in the history of the machine and the number of ticks since.
-/

namespace Chip8

inductive Timer where
  | delay
  | sound
  deriving DecidableEq

def Timer.part : Timer → Part
  | .delay => .delay
  | .sound => .sound

theorem Timer.part_ne_keypad (timer : Timer) : timer.part ≠ .keypad := by
  cases timer <;> decide

/-- The register that an instruction sets the timer from. -/
def Instruction.timerSource? (timer : Timer) : Instruction → Option Register
  | .setDelay x => if timer = .delay then some x else none
  | .setSound x => if timer = .sound then some x else none
  | _ => none

theorem Instruction.timerSource?_of_part? {timer : Timer} {instruction : Instruction}
    (timed : instruction.part? = some timer.part) :
    ∃ x, instruction.timerSource? timer = some x := by
  cases timer with
  | delay =>
      cases instruction with
      | setDelay x => exact ⟨x, rfl⟩
      | _ => cases timed
  | sound =>
      cases instruction with
      | setSound x => exact ⟨x, rfl⟩
      | _ => cases timed

def Machine.timer {σ : Type} (machine : Machine σ) : Timer → UInt8
  | .delay => machine.delay
  | .sound => machine.sound

def Move.ticks : Move → Bool
  | .tick => true
  | _ => false

namespace Occasion

variable {σ : Type} [CallStack σ]

/-- What the timer is set to, if it is. -/
def setting? (timer : Timer) (occasion : Occasion σ) : Option UInt8 :=
  match occasion.move with
  | .load program => if program.length ≤ Memory.programCapacity then some 0 else none
  | .step =>
      (occasion.completed?.bind (Instruction.timerSource? timer)).map occasion.machine.registers.get
  | .tick | .hold _ => none

/-- A load that is refused, or a step that faults or waits. -/
def Stalls (occasion : Occasion σ) : Prop :=
  match occasion.move with
  | .load program => ∃ fault, (occasion.machine.load program).answer = .error fault
  | .step => occasion.machine.step.answer ≠ .ok .running
  | .tick | .hold _ => False

end Occasion

namespace Machine

variable {σ : Type} [CallStack σ] {machine : Machine σ} {timer : Timer}

omit [CallStack σ] in
theorem Agree.timer_eq {later : Machine σ} (agree : machine.Agree later timer.part) :
    later.timer timer = machine.timer timer := by
  cases timer with
  | delay => exact agree
  | sound => exact agree

theorem timer_step_of_source {instruction : Instruction} {x : Register}
    (decoded : machine.upcoming = .ok instruction)
    (source : instruction.timerSource? timer = some x) :
    machine.step.machine.timer timer = machine.registers.get x := by
  rw [machine_step_of_ok decoded]
  cases instruction with
  | setDelay =>
      cases timer with
      | delay =>
          cases source
          rfl
      | sound => cases source
  | setSound =>
      cases timer with
      | delay => cases source
      | sound =>
          cases source
          rfl
  | _ => cases source

omit [CallStack σ] in
theorem toNat_timer_tick (machine : Machine σ) (timer : Timer) :
    (machine.tick.timer timer).toNat = (machine.timer timer).toNat - 1 := by
  have counted (value : UInt8) :
      (if value = 0 then 0 else value - 1).toNat = value.toNat - 1 := by
    split
    · next zero =>
        rw [zero]
        rfl
    · next positive =>
        have one_le : 1 ≤ value := by
          rw [UInt8.le_iff_toNat_le]
          exact Nat.pos_of_ne_zero fun zero => positive (UInt8.toNat.inj zero)
        exact UInt8.toNat_sub_of_le _ _ one_le
  cases timer with
  | delay => exact counted machine.delay
  | sound => exact counted machine.sound

omit [CallStack σ] in
theorem buzzing_iff (machine : Machine σ) : machine.buzzing = true ↔ 0 < machine.sound.toNat := by
  rw [buzzing, bne_iff_ne, Nat.pos_iff_ne_zero, ← UInt8.toNat_zero, ne_eq, ne_eq, UInt8.toNat_inj]

theorem step_of_readDelay {x : Register} (decoded : machine.upcoming = .ok (.readDelay x)) :
    machine.step.answer = .ok .running ∧ machine.step.machine.registers.get x = machine.delay := by
  constructor
  · rw [answer_step_of_ok decoded]
    rfl
  · rw [machine_step_of_ok decoded]
    exact Vector.getElem_set_self x.isLt

end Machine

/-! ## Settings and ticks -/

namespace Occasion

variable {σ : Type} [CallStack σ] {occasion : Occasion σ} {timer : Timer}

theorem setting?_load (machine : Machine σ) (program : Program) :
    setting? timer ⟨machine, .load program⟩ =
      if program.length ≤ Memory.programCapacity then some 0 else none := rfl

theorem setting?_step_eq_some_iff {machine : Machine σ} {value : UInt8} :
    setting? timer ⟨machine, .step⟩ = some value ↔
      ∃ instruction x, completed? ⟨machine, .step⟩ = some instruction ∧
        instruction.timerSource? timer = some x ∧ machine.registers.get x = value := by
  simp [setting?, Option.bind_eq_some_iff]

theorem timer_finish_of_setting {value : UInt8} (set : occasion.setting? timer = some value) :
    occasion.finish.timer timer = value := by
  obtain ⟨machine, move⟩ := occasion
  cases move with
  | load program =>
      rw [setting?_load] at set
      split at set
      · next fits =>
          cases set
          rw [finish, Machine.make, Machine.load_of_le fits]
          cases timer
          · rfl
          · rfl
      · cases set
  | step =>
      obtain ⟨instruction, x, completed, source, rfl⟩ := setting?_step_eq_some_iff.mp set
      obtain ⟨_, decoded, _⟩ := completed?_eq_some_iff.mp completed
      exact Machine.timer_step_of_source decoded source
  | tick | hold => cases set

/-- Nothing but a tick moves a timer that is not set. -/
theorem timer_finish_of_not_set (unset : occasion.setting? timer = none)
    (still : occasion.move.ticks = false) :
    occasion.finish.timer timer = occasion.machine.timer timer := by
  obtain ⟨machine, move⟩ := occasion
  cases move with
  | load program =>
      rw [setting?_load] at unset
      split at unset
      · cases unset
      · next large =>
          rw [finish, Machine.make, Machine.load_of_lt (Nat.lt_of_not_le large)]
          rfl
  | step =>
      refine Machine.Agree.timer_eq (machine.agree_step timer.part timer.part_ne_keypad ?_)
      intro instruction completed timed
      obtain ⟨x, source⟩ := Instruction.timerSource?_of_part? timed
      cases unset.symm.trans (setting?_step_eq_some_iff.mpr ⟨_, x, completed, source, rfl⟩)
  | tick => cases still
  | hold => rfl

theorem toNat_timer_finish (unset : occasion.setting? timer = none) :
    (occasion.finish.timer timer).toNat =
      (occasion.machine.timer timer).toNat - occasion.move.ticks.toNat := by
  cases ticks : occasion.move.ticks with
  | false => rw [timer_finish_of_not_set unset ticks, Bool.toNat_false, Nat.sub_zero]
  | true =>
      obtain ⟨machine, move⟩ := occasion
      cases move with
      | tick => exact machine.toNat_timer_tick timer
      | _ => cases ticks

theorem Stalls.timer_finish (stalls : occasion.Stalls) (timer : Timer) :
    occasion.finish.timer timer = occasion.machine.timer timer := by
  obtain ⟨machine, move⟩ := occasion
  cases move with
  | load program =>
      obtain ⟨fault, refused⟩ := stalls
      rw [finish, Machine.make, Machine.load_of_error refused]
  | step =>
      refine timer_finish_of_not_set (Option.eq_none_iff_forall_ne_some.mpr fun value set => ?_) rfl
      obtain ⟨_, _, completed, _⟩ := setting?_step_eq_some_iff.mp set
      exact stalls (completed?_eq_some_iff.mp completed).2.2
  | tick | hold => cases stalls

end Occasion

section

variable {σ : Type} [CallStack σ]

/-- What the timer was set to last, or zero. -/
def lastSetting (timer : Timer) (made : List (Occasion σ)) : UInt8 :=
  (made.reverse.findSome? (Occasion.setting? timer)).getD 0

/-- The ticks since the timer was set last. -/
def ticksSince (timer : Timer) (made : List (Occasion σ)) : Nat :=
  (made.reverse.takeWhile fun occasion => (occasion.setting? timer).isNone).countP fun occasion =>
    occasion.move.ticks

variable {timer : Timer} {made : List (Occasion σ)} {here : Occasion σ}

theorem lastSetting_concat :
    lastSetting timer (made ++ [here]) =
      (here.setting? timer).getD (lastSetting timer made) := by
  simp only [lastSetting, List.reverse_append, List.reverse_singleton, List.singleton_append,
    List.findSome?_cons]
  cases here.setting? timer with
  | none => rfl
  | some value => rfl

theorem ticksSince_concat_of_setting {value : UInt8} (set : here.setting? timer = some value) :
    ticksSince timer (made ++ [here]) = 0 := by
  simp [ticksSince, set]

theorem ticksSince_concat_of_not_set (unset : here.setting? timer = none) :
    ticksSince timer (made ++ [here]) = ticksSince timer made + here.move.ticks.toNat := by
  simp only [ticksSince, List.reverse_append, List.reverse_singleton, List.singleton_append]
  rw [List.takeWhile_cons_of_pos (by rw [unset]; rfl), List.countP_cons]
  cases here.move.ticks
  · rfl
  · rfl

end

namespace Machine

section

variable {σ : Type} [CallStack σ] {machine : Machine σ} {made : List (Occasion σ)} {timer : Timer}

/-- The timer holds its last setting less the ticks since, or zero. -/
def CountsDown (timer : Timer) (made : List (Occasion σ)) (machine : Machine σ) : Prop :=
  (machine.timer timer).toNat = (lastSetting timer made).toNat - ticksSince timer made

theorem CountsDown.make (counts : CountsDown timer made machine) (move : Move) :
    CountsDown timer (made ++ [⟨machine, move⟩]) (machine.make move) := by
  rw [CountsDown, lastSetting_concat]
  cases set : Occasion.setting? timer ⟨machine, move⟩ with
  | some value =>
      have finish : (machine.make move).timer timer = value := Occasion.timer_finish_of_setting set
      rw [finish, ticksSince_concat_of_setting set]
      rfl
  | none =>
      have finish : ((machine.make move).timer timer).toNat =
          (machine.timer timer).toNat - move.ticks.toNat := Occasion.toNat_timer_finish set
      rw [finish, ticksSince_concat_of_not_set set, counts, Nat.sub_sub]
      rfl

theorem countsDown_of_ofConfig {config : Config} {entropy : Random.CipherKey} {start : Machine σ}
    (accepted : ofConfig config entropy = .ok start) (timer : Timer) :
    CountsDown timer [] start := by
  unfold ofConfig at accepted
  split at accepted
  · cases accepted
    cases timer
    · rfl
    · rfl
  · cases accepted

/-- From power on, a timer holds what it was set to last, less the ticks since, and stops at zero. A
program that reads the delay reads that value, refusals and waits leave both timers, and the machine
buzzes while the sound timer runs. -/
theorem timers_count_down {config : Config} {entropy : Random.CipherKey} {start : Machine σ}
    (accepted : ofConfig config entropy = .ok start) (requests : List Request) :
    (∀ timer, ((start.performAll requests).timer timer).toNat =
      (lastSetting timer (start.occasions requests)).toNat -
        ticksSince timer (start.occasions requests)) ∧
    (∀ before here after x, start.occasions requests = before ++ here :: after →
      here.move = .step → here.machine.upcoming = .ok (.readDelay x) →
      here.completed? = some (.readDelay x) ∧
        (here.finish.registers.get x).toNat =
          (lastSetting .delay before).toNat - ticksSince .delay before) ∧
    (∀ here ∈ start.occasions requests, here.Stalls →
      ∀ timer, here.finish.timer timer = here.machine.timer timer) ∧
    ((start.performAll requests).buzzing = true ↔
      0 < ((start.performAll requests).timer .sound).toNat) := by
  have initial := countsDown_of_ofConfig accepted
  refine ⟨fun timer => ?_, ?_, fun _ _ stalls timer => stalls.timer_finish timer, ?_⟩
  · exact occasions_preserve (fun move counts => counts.make move) (initial timer) requests
  · intro before here after x split move decoded
    have counts : CountsDown .delay before here.machine :=
      occasions_preserve_before (fun move counts => counts.make move) (initial .delay) split
    obtain ⟨answer, register⟩ := step_of_readDelay decoded
    refine ⟨Occasion.completed?_eq_some_iff.mpr ⟨move, decoded, answer⟩, ?_⟩
    rw [Occasion.finish, move, Machine.make, register]
    exact counts
  · exact buzzing_iff _

end

/-- The delay was set to nine before a reload and to five after it, then ticked down twice, around a
wait for a key and a load that is too large. -/
theorem timers_count_down_waiting :
    let start : Machine Slots := powerOn {} (Vector.replicate 8 0)
    let earlier : List Request := [.load [0x6109, 0xF115], .run 2, .tick,
      .load [0x6105, 0xF115, 0xF20A, 0xF307], .run 3, .tick, .load (List.replicate 1793 0), .tick,
      .press ⟨7, by decide⟩]
    let here : Occasion Slots := ⟨start.performAll earlier, .step⟩
    ofConfig {} (Vector.replicate 8 0) = .ok start ∧
      start.occasions (earlier ++ [.step]) = start.occasions earlier ++ [here] ∧
      here.machine.upcoming = .ok (.readDelay ⟨3, by decide⟩) ∧
      lastSetting .delay (start.occasions earlier) = 5 ∧
      ticksSince .delay (start.occasions earlier) = 2 ∧
      (here.finish.registers.get ⟨3, by decide⟩).toNat = 5 - 2 := by
  intro start earlier here
  have accepted : ofConfig {} (Vector.replicate 8 0) = .ok start := rfl
  have split : start.occasions (earlier ++ [.step]) = start.occasions earlier ++ [here] :=
    start.occasions_append earlier [.step]
  obtain ⟨decoded, setting, ticks⟩ :
      here.machine.upcoming = .ok (.readDelay ⟨3, by decide⟩) ∧
        lastSetting .delay (start.occasions earlier) = 5 ∧
        ticksSince .delay (start.occasions earlier) = 2 := by
    decide +kernel
  obtain ⟨_, reads, _⟩ := timers_count_down accepted (earlier ++ [.step])
  obtain ⟨_, register⟩ := reads _ here [] _ split rfl decoded
  rw [setting, ticks] at register
  exact ⟨accepted, split, decoded, setting, ticks, register⟩

end Machine

end Chip8
