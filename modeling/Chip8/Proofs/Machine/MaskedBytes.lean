import Mathlib.Control.Monad.Basic
import Chip8.Proofs.Machine.RandomBytes
import Chip8.Proofs.Machine.Surroundings
import Chip8.Proofs.Pacing

/-!
# Random bytes and their masks

A random byte goes nowhere but through the mask of the instruction that draws it. So machines that
differ in their sources of random bytes alone stay the same in all else, and give the same replies,
for as long as each byte is drawn under a mask of zero. A run of the command that draws no other
bytes reports the same whatever entropy the host gives.
-/

namespace Chip8

/-- If the move draws a byte, the mask clears all of it. -/
def Occasion.Masked {σ : Type} [CallStack σ] (occasion : Occasion σ) : Prop :=
  ∀ x mask, occasion.completed? = some (.random x mask) → mask = 0

theorem Occasion.masked_of_mem {σ : Type} [CallStack σ] {occasion : Occasion σ}
    {completed : List (Option Instruction)} (listed : occasion.completed? ∈ completed)
    (zero : ∀ x mask, some (.random x mask) ∈ completed → mask = 0) : occasion.Masked :=
  fun x mask drawn => zero x mask (drawn ▸ listed)

namespace Machine

section

variable {σ : Type}

def withRandom (machine : Machine σ) (source : Random.Source) : Machine σ :=
  { machine with random := source }

/-- The machines are the same but for their sources of random bytes. -/
structure SameButRandom (first second : Machine σ) : Prop where
  core_eq : second.toCore = first.toCore
  config_eq : second.config = first.config

theorem sameButRandom_withRandom (machine : Machine σ) (source : Random.Source) :
    machine.SameButRandom (machine.withRandom source) :=
  ⟨rfl, rfl⟩

theorem SameButRandom.eq_withRandom {first second : Machine σ}
    (same : first.SameButRandom second) : second = first.withRandom second.random := by
  obtain ⟨core, random, config⟩ := second
  obtain ⟨rfl, rfl⟩ := same
  rfl

end

variable {σ : Type} [CallStack σ]

theorem execute_inward_withRandom (machine : Machine σ) (source : Random.Source)
    {instruction : Instruction} (inward : instruction.looksAround = false) :
    (machine.execute instruction).Agrees SameButRandom
      ((machine.withRandom source).execute instruction) := by
  have agrees := machine.execute_within ⟨machine.calls, source, machine.config⟩ inward
  have kept := machine.surroundings_execute inward
  have calls : (machine.execute instruction).machine.calls = machine.calls :=
    congrArg Surroundings.calls kept
  have config : (machine.execute instruction).machine.config = machine.config :=
    congrArg Surroundings.config kept
  refine ⟨agrees.answer_eq, agrees.events_eq, ?_⟩
  have related : ((machine.withRandom source).execute instruction).machine =
      (machine.execute instruction).machine.within ⟨machine.calls, source, machine.config⟩ :=
    agrees.related
  rw [related]
  refine ⟨?_, config.symm⟩
  simp only [within, calls.symm]

theorem execute_random_zero (machine : Machine σ) (x : Register) :
    machine.execute (.random x 0) =
      .running ({ machine with random := machine.random.next.2 }.setRegister x 0).advance := by
  rw [execute, drawRandom_eq, UInt8.zero_and]

omit [CallStack σ] in
theorem agrees_setRegister_withRandom (machine : Machine σ) (drawn other : Random.Source)
    (x : Register) (value : UInt8) :
    (Turn.running ({ machine with random := drawn }.setRegister x value).advance).Agrees
      SameButRandom
      (Turn.running ({ machine with random := other }.setRegister x value).advance) :=
  ⟨rfl, rfl, rfl, rfl⟩

theorem execute_withRandom (machine : Machine σ) (source : Random.Source)
    {instruction : Instruction} (masked : ∀ x mask, instruction = .random x mask → mask = 0) :
    (machine.execute instruction).Agrees SameButRandom
      ((machine.withRandom source).execute instruction) := by
  cases looks : instruction.looksAround with
  | false => exact machine.execute_inward_withRandom source looks
  | true =>
      cases instruction with
      | leave =>
          simp only [execute, withRandom]
          cases CallStack.pop machine.calls with
          | error fault => exact ⟨rfl, rfl, rfl, rfl⟩
          | ok popped => exact ⟨rfl, rfl, rfl, rfl⟩
      | call address =>
          simp only [execute, withRandom]
          cases CallStack.pushWithin machine.config.stackLimit machine.calls _ with
          | error fault => exact ⟨rfl, rfl, rfl, rfl⟩
          | ok pushed => exact ⟨rfl, rfl, rfl, rfl⟩
      | random x mask =>
          cases masked x mask rfl
          rw [execute_random_zero, execute_random_zero]
          exact machine.agrees_setRegister_withRandom _ _ x 0
      | _ => cases looks

namespace SameButRandom

variable {first second : Machine σ} (same : first.SameButRandom second)

include same

theorem step (masked : Occasion.Masked ⟨first, .step⟩) :
    first.step.Agrees SameButRandom second.step := by
  rw [same.eq_withRandom]
  have upcoming : (first.withRandom second.random).upcoming = first.upcoming := rfl
  cases decoded : first.upcoming with
  | error fault =>
      simp only [Machine.step, upcoming, decoded]
      exact ⟨rfl, rfl, first.sameButRandom_withRandom _⟩
  | ok instruction =>
      simp only [Machine.step, upcoming, decoded]
      refine (first.execute_withRandom second.random ?_).after _
      rintro x mask rfl
      exact masked x mask (Occasion.completed?_of_random rfl decoded)

omit [CallStack σ] in
theorem tick : first.tick.SameButRandom second.tick := by
  rw [same.eq_withRandom]
  exact ⟨rfl, rfl⟩

omit [CallStack σ] in
theorem hold (key? : Option Key) : (first.hold key?).SameButRandom (second.hold key?) := by
  rw [same.eq_withRandom]
  exact ⟨rfl, rfl⟩

theorem load (program : Program) :
    (first.load program).Agrees SameButRandom (second.load program) := by
  unfold Machine.load
  split
  · exact ⟨rfl, rfl, rfl, same.config_eq⟩
  · exact ⟨rfl, rfl, same⟩

theorem run {count : Nat}
    (masked : ∀ occasion ∈ first.history (first.moves (.run count)), occasion.Masked) :
    (first.run count).Agrees SameButRandom (second.run count) := by
  induction count generalizing first second with
  | zero => exact ⟨rfl, rfl, same⟩
  | succ count ih =>
      by_cases goesOn : first.step.answer = .ok .running
      · simp only [moves, stepsTaken, goesOn, List.replicate_succ, history] at masked
        have stepped := same.step (masked _ List.mem_cons_self)
        have rest := ih stepped.related
          fun occasion later => masked occasion (List.mem_cons_of_mem _ later)
        simp only [run_succ, goesOn, ← stepped.answer_eq, ← stepped.events_eq]
        exact ⟨rest.answer_eq, congrArg (first.step.events ++ ·) rest.events_eq, rest.related⟩
      · rw [moves, stepsTaken_succ_of_stop goesOn] at masked
        have stepped := same.step (masked _ List.mem_cons_self)
        have otherStops : second.step.answer ≠ .ok .running := stepped.answer_eq ▸ goesOn
        rw [run_succ_of_stop goesOn, run_succ_of_stop otherStops]
        exact stepped

theorem perform {request : Request}
    (masked : ∀ occasion ∈ first.history (first.moves request), occasion.Masked) :
    (first.perform request).Agrees SameButRandom (second.perform request) := by
  cases request with
  | load program => exact (same.load program).map _
  | loadImage image => exact (same.load image.words).map _
  | step => exact (same.step (masked _ List.mem_cons_self)).map _
  | run count => exact (same.run masked).map _
  | tick => exact ⟨rfl, rfl, same.tick⟩
  | hold key? => exact ⟨rfl, rfl, same.hold key?⟩
  | press key =>
      have stepping := masked ⟨first.hold (some key), .step⟩ (.tail _ (.head _))
      exact ((same.hold (some key)).step stepping).map _

theorem performAll {requests : List Request}
    (masked : ∀ occasion ∈ first.occasions requests, occasion.Masked) :
    second.replies requests = first.replies requests ∧
      (first.performAll requests).SameButRandom (second.performAll requests) := by
  induction requests generalizing first second with
  | nil => exact ⟨rfl, same⟩
  | cons request rest ih =>
      rw [occasions, movesAll, history_append, makeAll_moves] at masked
      have performed := same.perform
        fun occasion here => masked occasion (List.mem_append_left _ here)
      obtain ⟨replies, later⟩ := ih performed.related
        fun occasion later => masked occasion (List.mem_append_right _ later)
      refine ⟨?_, later⟩
      simp only [Machine.replies, performed.answer_eq, performed.events_eq, replies]

end SameButRandom

end Machine

/-! ## The loop of the command -/

variable {σ : Type} [CallStack σ]

/-- The runs end alike, on machines that are the same but for their sources of random bytes. -/
structure Paced.Agrees (first second : Paced σ) : Prop where
  ending_eq : second.ending = first.ending
  executed_eq : second.executed = first.executed
  events_eq : second.events = first.events
  related : first.machine.SameButRandom second.machine

theorem Machine.SameButRandom.runAfter {first second : Machine σ}
    (same : first.SameButRandom second) (pace : Pace) (executed : Nat) (told : List Event)
    {budget : Nat} (masked : ∀ here, first.VisitsAfter pace.interval executed budget here →
      Occasion.Masked ⟨here, .step⟩) :
    (pace.runAfter executed told first budget).Agrees
      (pace.runAfter executed told second budget) := by
  induction budget generalizing first second executed told with
  | zero => exact ⟨rfl, rfl, rfl, same⟩
  | succ budget ih =>
      have stepped := same.step (masked first (first.visitsAfter_self _ _ _))
      by_cases goesOn : first.step.answer = .ok .running
      · have otherGoesOn : second.step.answer = .ok .running := stepped.answer_eq ▸ goesOn
        have ticked : (first.step.machine.tickAt pace.interval (executed + 1)).SameButRandom
            (second.step.machine.tickAt pace.interval (executed + 1)) := by
          unfold tickAt
          split
          · exact stepped.related.tick
          · exact stepped.related
        rw [Pace.runAfter_succ_of_running _ _ _ goesOn,
          Pace.runAfter_succ_of_running _ _ _ otherGoesOn, stepped.events_eq]
        exact ih ticked _ _ fun here later => masked here (.of_running goesOn later)
      · have otherStops : second.step.answer ≠ .ok .running := stepped.answer_eq ▸ goesOn
        rw [Pace.runAfter_succ_of_stop _ _ _ goesOn, Pace.runAfter_succ_of_stop _ _ _ otherStops,
          stepped.events_eq]
        exact ⟨stepped.answer_eq.symm, rfl, rfl, stepped.related⟩

theorem Trial.report_eq_of_agrees {first second : Paced Slots} (agrees : first.Agrees second)
    (file : String) (size steps : Nat) (rate : Rate) (loading : List Event)
    (milliseconds : String) :
    Trial.report ⟨file, size, steps, rate, loading, second⟩ milliseconds =
      Trial.report ⟨file, size, steps, rate, loading, first⟩ milliseconds := by
  have counter : second.machine.counter = first.machine.counter :=
    congrArg Core.counter agrees.related.core_eq
  have screen : second.machine.screen = first.machine.screen :=
    congrArg Core.screen agrees.related.core_eq
  simp only [Trial.report, Trial.opening, Trial.closing, Trial.picture, Trial.counterText,
    agrees.ending_eq, agrees.executed_eq, agrees.events_eq, counter, screen]

namespace Outcome

theorem report_ofRun_eq {threshold : Threshold} {entropy : Random.CipherKey} {file : String}
    {steps : Nat} {rate : Rate} {image : Image}
    (masked : image.length ≤ 3584 → ∀ here,
      (loaded entropy image).Visits rate.stepsPerTick steps here → Occasion.Masked ⟨here, .step⟩)
    (other : Random.CipherKey) (milliseconds : String) :
    (ofRun threshold other file steps rate image).report milliseconds =
      (ofRun threshold entropy file steps rate image).report milliseconds := by
  rcases Nat.lt_or_ge 3584 image.length with large | fits
  · rw [ofRun_of_lt_length _ _ _ _ _ large, ofRun_of_lt_length _ _ _ _ _ large]
  · rw [ofRun_of_length_le _ _ _ _ _ fits, ofRun_of_length_le _ _ _ _ _ fits]
    have same : (Machine.powerOn {} entropy : Machine Slots).SameButRandom
        (Machine.powerOn {} other) := ⟨rfl, rfl⟩
    have loading : (loaded entropy image).SameButRandom (loaded other image) :=
      (same.load image.words).related
    have paced := loading.runAfter ⟨rate.stepsPerTick, keeps threshold⟩ 0 [] (masked fits)
    exact Trial.report_eq_of_agrees paced _ _ _ _ _ milliseconds

end Outcome

/-- While every byte is drawn under a mask of zero, machines that differ in their random bytes alone
reply the same and stay the same in all else, and so does the command under any entropy. -/
theorem Machine.random_bytes_only_through_masks :
    (∀ {first second : Machine σ}, first.SameButRandom second → ∀ requests,
      (∀ occasion ∈ first.occasions requests, occasion.Masked) →
        second.replies requests = first.replies requests ∧
        ∀ earlier, earlier <+: requests →
          (first.performAll earlier).SameButRandom (second.performAll earlier)) ∧
    ∀ threshold entropy file steps rate contents,
      (∀ image, contents = .ok image → image.length ≤ 3584 → ∀ here,
        (Outcome.loaded entropy image).Visits rate.stepsPerTick steps here →
          Occasion.Masked ⟨here, .step⟩) →
      ∀ other milliseconds,
        (Outcome.ofInvocation threshold other (.run file steps rate) contents).report milliseconds =
          (Outcome.ofInvocation threshold entropy (.run file steps rate) contents).report
            milliseconds := by
  constructor
  · intro first second same requests masked
    refine ⟨(same.performAll masked).1, fun earlier started => ?_⟩
    obtain ⟨later, rfl⟩ := started
    rw [occasions_append] at masked
    exact (same.performAll fun occasion made => masked occasion (List.mem_append_left _ made)).2
  · intro threshold entropy file steps rate contents masked other milliseconds
    cases contents with
    | error failure => rfl
    | ok image => exact Outcome.report_ofRun_eq (masked image rfl) other milliseconds

/-- Bytes under a zero mask, drawn before and after a wait for a key and by a run of the command. -/
theorem Machine.random_bytes_only_through_masks_zero :
    let low : Random.CipherKey := Vector.replicate 8 0
    let high : Random.CipherKey := Vector.replicate 8 1
    let first : Machine Slots := powerOn {} low
    let second : Machine Slots := powerOn {} high
    let requests : List Request := [.load [0xC000, 0xF20A, 0xC100], .run 5, .press ⟨7, by decide⟩,
      .step]
    let image : Image := [0xC0, 0x00, 0x63, 0x05, 0xC1, 0x00]
    let report := fun entropy => (Outcome.ofInvocation .standard entropy
      (.run "maze.ch8" 3 ⟨120⟩) (.ok image)).report "2"
    first.random ≠ second.random ∧ first.SameButRandom second ∧
      (first.occasions requests).countP Occasion.drawsByte = 2 ∧
      (∀ occasion ∈ first.occasions requests, occasion.Masked) ∧
      second.replies requests = first.replies requests ∧
      (first.performAll requests).SameButRandom (second.performAll requests) ∧
      (∀ here, (Outcome.loaded low image).Visits 2 3 here → Occasion.Masked ⟨here, .step⟩) ∧
      report high = report low := by
  intro low high first second requests image report
  have differ : first.random ≠ second.random := by decide +kernel
  have same : first.SameButRandom second := ⟨rfl, rfl⟩
  have draws : (first.occasions requests).countP Occasion.drawsByte = 2 := by decide +kernel
  have completed : ∀ occasion ∈ first.occasions requests, occasion.completed? ∈
      [none, some (.random ⟨0, by decide⟩ 0), some (.awaitKey ⟨2, by decide⟩),
        some (.random ⟨1, by decide⟩ 0)] := by
    decide +kernel
  have masked : ∀ occasion ∈ first.occasions requests, occasion.Masked :=
    fun occasion made => Occasion.masked_of_mem (completed occasion made) (by grind)
  have visited : ∀ done < 3, Occasion.completed?
      ⟨((Outcome.loaded low image).follow (Beat.spacedAfter 2 0 done)).machine, .step⟩ ∈
      [some (.random ⟨0, by decide⟩ 0), some (.setByte ⟨3, by decide⟩ 5),
        some (.random ⟨1, by decide⟩ 0)] := by
    decide +kernel
  have quiet : ∀ here, (Outcome.loaded low image).Visits 2 3 here →
      Occasion.Masked ⟨here, .step⟩ := by
    rintro here ⟨done, before, _, rfl⟩
    exact Occasion.masked_of_mem (visited done before) (by grind)
  obtain ⟨machines, runs⟩ := random_bytes_only_through_masks (σ := Slots)
  obtain ⟨replies, later⟩ := machines same requests masked
  refine ⟨differ, same, draws, masked, replies, later _ (List.prefix_refl _), quiet, ?_⟩
  refine runs .standard low "maze.ch8" 3 ⟨120⟩ (.ok image) ?_ high "2"
  intro loaded contents _ here visits
  cases contents
  exact quiet here visits

end Chip8
