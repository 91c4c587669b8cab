import Mathlib.Algebra.BigOperators.Group.List.Basic
import Chip8.Command.Report
import Chip8.Proofs.Machine.Reloading

/-!
# Paced runs are runs in frames

A schedule lists steps and ticks, and a machine follows it up to the first step that does not
answer `running`. The loop that counts its steps and the driver that runs whole frames both follow
a schedule, and the two schedules are equal. So they stop at the same place, be it in the middle of
a frame or at the end of one, and with the same ticks behind them.
-/

namespace Chip8

inductive Beat where
  | step
  | tick
  deriving DecidableEq, Repr

namespace Beat

/-- Goes on after some steps, with a tick whenever the interval divides the number of steps. -/
def spacedAfter (interval executed : Nat) : Nat → List Beat
  | 0 => []
  | budget + 1 =>
      if (executed + 1) % interval = 0 then
        .step :: .tick :: spacedAfter interval (executed + 1) budget
      else
        .step :: spacedAfter interval (executed + 1) budget

def spaced (interval budget : Nat) : List Beat :=
  spacedAfter interval 0 budget

def frame (interval : Nat) : List Beat :=
  List.replicate interval .step ++ [.tick]

def frames (interval count : Nat) : List Beat :=
  (List.replicate count (frame interval)).flatten

def framed (interval budget : Nat) : List Beat :=
  frames interval (budget / interval) ++ List.replicate (budget % interval) .step

theorem spacedAfter_add (interval executed first second : Nat) :
    spacedAfter interval executed (first + second) =
      spacedAfter interval executed first ++ spacedAfter interval (executed + first) second := by
  induction first generalizing executed with
  | zero => rw [Nat.zero_add, Nat.add_zero, spacedAfter, List.nil_append]
  | succ first ih =>
      rw [Nat.succ_add_eq_add_succ, Nat.add_succ, spacedAfter, spacedAfter, ih,
        Nat.add_right_comm executed 1 first, Nat.add_assoc executed first 1]
      split
      · rfl
      · rfl

/-- Within a frame there are only steps. -/
theorem spacedAfter_of_lt {interval offset count : Nat} (within : offset + count < interval)
    (done : Nat) :
    spacedAfter interval (interval * done + offset) count = List.replicate count .step := by
  induction count generalizing offset with
  | zero => rfl
  | succ count ih =>
      have inside : offset + 1 < interval := by omega
      have between : ¬ (interval * done + offset + 1) % interval = 0 := by
        rw [Nat.add_assoc, Nat.mul_add_mod, Nat.mod_eq_of_lt inside]
        exact Nat.succ_ne_zero offset
      rw [spacedAfter, if_neg between, Nat.add_assoc, ih (by omega), List.replicate_succ]

theorem spacedAfter_frame {interval : Nat} (positive : 0 < interval) (done : Nat) :
    spacedAfter interval (interval * done) interval = frame interval := by
  obtain ⟨short, rfl⟩ := Nat.exists_eq_add_of_lt positive
  rw [Nat.zero_add]
  -- Only the last step of the frame completes a multiple of the interval.
  have steps : spacedAfter (short + 1) ((short + 1) * done) short = List.replicate short .step :=
    spacedAfter_of_lt (show 0 + short < short + 1 by omega) done
  have boundary : ((short + 1) * done + short + 1) % (short + 1) = 0 := by
    rw [Nat.add_assoc, ← Nat.mul_succ, Nat.mul_mod_right]
  calc spacedAfter (short + 1) ((short + 1) * done) (short + 1)
      = List.replicate short .step ++
          spacedAfter (short + 1) ((short + 1) * done + short) 1 := by
        rw [spacedAfter_add, steps]
    _ = List.replicate short .step ++ [.step, .tick] := by
        rw [spacedAfter, if_pos boundary, spacedAfter]
    _ = frame (short + 1) := by
        rw [frame, List.replicate_succ', List.append_assoc]
        rfl

theorem spacedAfter_frames {interval : Nat} (positive : 0 < interval) (done count : Nat) :
    spacedAfter interval (interval * done) (interval * count) = frames interval count := by
  induction count generalizing done with
  | zero => rfl
  | succ count ih =>
      rw [Nat.mul_succ, Nat.add_comm, spacedAfter_add, spacedAfter_frame positive, ← Nat.mul_succ,
        ih, frames, frames, List.replicate_succ, List.flatten_cons]

/-- A counter with a remainder test and frames within frames make one schedule. -/
theorem spaced_eq_framed {interval : Nat} (positive : 0 < interval) (budget : Nat) :
    spaced interval budget = framed interval budget := by
  have short : 0 + budget % interval < interval := by
    rw [Nat.zero_add]
    exact Nat.mod_lt budget positive
  have whole : spacedAfter interval 0 (interval * (budget / interval)) =
      frames interval (budget / interval) :=
    spacedAfter_frames positive 0 _
  have rest : spacedAfter interval (interval * (budget / interval)) (budget % interval) =
      List.replicate (budget % interval) .step :=
    spacedAfter_of_lt short _
  calc spaced interval budget
      = spacedAfter interval 0 (interval * (budget / interval) + budget % interval) := by
        rw [Nat.div_add_mod, spaced]
    _ = framed interval budget := by
        rw [spacedAfter_add, Nat.zero_add, whole, rest, framed]

theorem count_step_spaced (interval budget : Nat) :
    (spaced interval budget).count .step = budget := by
  have general (executed : Nat) : (spacedAfter interval executed budget).count .step = budget := by
    induction budget generalizing executed with
    | zero => rfl
    | succ budget ih =>
        rw [spacedAfter]
        split
        · rw [List.count_cons_self, List.count_cons_of_ne (by decide), ih]
        · rw [List.count_cons_self, ih]
  exact general 0

theorem count_tick_spaced {interval : Nat} (positive : 0 < interval) (budget : Nat) :
    (spaced interval budget).count .tick = budget / interval := by
  have single : (frame interval).count .tick = 1 := by
    rw [frame, List.count_append, List.count_replicate]
    rfl
  rw [spaced_eq_framed positive, framed, List.count_append, List.count_replicate, frames,
    List.count_flatten, List.map_replicate, single, List.sum_replicate]
  simp

end Beat

variable {σ : Type}

namespace Turn

/-- Goes on with the machine only after the answer `running`. -/
def andThen (turn : Turn σ Status) (next : Machine σ → Turn σ Status) : Turn σ Status :=
  match turn.answer with
  | .ok .running =>
      let later := next turn.machine
      { later with events := turn.events ++ later.events }
  | _ => turn

theorem andThen_of_running {turn : Turn σ Status} (goesOn : turn.answer = .ok .running)
    (next : Machine σ → Turn σ Status) :
    turn.andThen next =
      { next turn.machine with events := turn.events ++ (next turn.machine).events } := by
  rw [andThen, goesOn]

theorem andThen_of_stop {turn : Turn σ Status} (stops : turn.answer ≠ .ok .running)
    (next : Machine σ → Turn σ Status) : turn.andThen next = turn := by
  rw [andThen]
  split
  · next running => exact absurd running stops
  · rfl

theorem andThen_assoc (turn : Turn σ Status) (next last : Machine σ → Turn σ Status) :
    (turn.andThen next).andThen last =
      turn.andThen fun machine => (next machine).andThen last := by
  by_cases goesOn : turn.answer = .ok .running
  · rw [andThen_of_running goesOn, andThen_of_running goesOn]
    by_cases again : (next turn.machine).answer = .ok .running
    · rw [andThen_of_running again, andThen_of_running (by exact again), List.append_assoc]
    · rw [andThen_of_stop again, andThen_of_stop (by exact again)]
  · rw [andThen_of_stop goesOn, andThen_of_stop goesOn, andThen_of_stop goesOn]

end Turn

namespace Machine

variable [CallStack σ]

/-- Stops at the first step that does not answer `running`. -/
def follow (machine : Machine σ) : List Beat → Turn σ Status
  | [] => .running machine
  | .step :: rest => machine.step.andThen fun later => later.follow rest
  | .tick :: rest => machine.tick.follow rest

theorem follow_append (machine : Machine σ) (first second : List Beat) :
    machine.follow (first ++ second) =
      (machine.follow first).andThen fun later => later.follow second := by
  induction first generalizing machine with
  | nil => rfl
  | cons beat rest ih =>
      cases beat with
      | step =>
          rw [List.cons_append, follow, follow, Turn.andThen_assoc]
          congr 1
          funext later
          exact ih later
      | tick => exact ih machine.tick

theorem run_succ_eq (machine : Machine σ) (count : Nat) :
    machine.run (count + 1) = machine.step.andThen fun later => later.run count := by
  rw [run_succ]
  rfl

theorem run_eq_follow (machine : Machine σ) (count : Nat) :
    machine.run count = machine.follow (List.replicate count .step) := by
  induction count generalizing machine with
  | zero => rfl
  | succ count ih =>
      rw [run_succ_eq, List.replicate_succ, follow]
      simp only [ih]

theorem runFrame_eq_follow (machine : Machine σ) (interval : Nat) :
    machine.runFrame interval = machine.follow (Beat.frame interval) := by
  rw [Beat.frame, follow_append, ← run_eq_follow, runFrame]
  by_cases goesOn : (machine.run interval).answer = .ok .running
  · rw [Turn.andThen_of_running goesOn]
    simp only [follow, Turn.running, goesOn, List.append_nil]
  · rw [Turn.andThen_of_stop goesOn]
    split
    · next running => exact absurd running goesOn
    · rfl

theorem runFrames_eq_follow (machine : Machine σ) (interval count : Nat) :
    machine.runFrames interval count = machine.follow (Beat.frames interval count) := by
  induction count generalizing machine with
  | zero => rfl
  | succ count ih =>
      rw [Beat.frames, List.replicate_succ, List.flatten_cons, ← Beat.frames, follow_append,
        ← runFrame_eq_follow]
      simp only [← ih]
      rfl

theorem runInFrames_eq_follow (machine : Machine σ) (interval budget : Nat) :
    machine.runInFrames interval budget = machine.follow (Beat.framed interval budget) := by
  rw [Beat.framed, follow_append, ← runFrames_eq_follow]
  simp only [← run_eq_follow]
  rfl

/-- Ticks where the interval divides the number of steps so far. -/
def tickAt (machine : Machine σ) (interval executed : Nat) : Machine σ :=
  if executed % interval = 0 then machine.tick else machine

theorem follow_spacedAfter_succ (machine : Machine σ) (interval executed count : Nat) :
    machine.follow (Beat.spacedAfter interval executed (count + 1)) =
      machine.step.andThen fun later =>
        (later.tickAt interval (executed + 1)).follow
          (Beat.spacedAfter interval (executed + 1) count) := by
  simp only [Beat.spacedAfter, tickAt]
  split
  · rfl
  · rfl

end Machine

/-! ## The counting loop -/

variable [CallStack σ]

/-- The budget is used up on the last machine, or a step from there ended the run. -/
def Paced.EndsAt (paced : Paced σ) (last : Machine σ) (budget : Nat) : Prop :=
  (paced.executed = budget ∧ paced.ending = .ok .running ∧ paced.machine = last) ∨
  (paced.executed < budget ∧ last.step.answer ≠ .ok .running ∧
    paced.ending = last.step.answer ∧ paced.machine = last.step.machine)

namespace Pace

variable (pace : Pace) (executed : Nat) (told : List Event)

theorem runAfter_succ_of_running {machine : Machine σ}
    (goesOn : machine.step.answer = .ok .running) (budget : Nat) :
    pace.runAfter executed told machine (budget + 1) =
      pace.runAfter (executed + 1) ((machine.step.events.filter pace.keeps).reverse ++ told)
        (machine.step.machine.tickAt pace.interval (executed + 1)) budget := by
  rw [runAfter]
  simp only [goesOn]
  rfl

theorem runAfter_succ_of_stop {machine : Machine σ}
    (stops : machine.step.answer ≠ .ok .running) (budget : Nat) :
    pace.runAfter executed told machine (budget + 1) =
      ⟨machine.step.answer, machine.step.machine, executed,
        ((machine.step.events.filter pace.keeps).reverse ++ told).reverse⟩ := by
  rw [runAfter]
  split
  · next running => exact absurd running stops
  · rfl

theorem runAfter_eq_follow (machine : Machine σ) (budget : Nat) :
    let paced := pace.runAfter executed told machine budget
    let turn := machine.follow (Beat.spacedAfter pace.interval executed budget)
    paced.ending = turn.answer ∧ paced.machine = turn.machine ∧
      paced.events = told.reverse ++ turn.events.filter pace.keeps := by
  induction budget generalizing executed told machine with
  | zero => exact ⟨rfl, rfl, (List.append_nil _).symm⟩
  | succ budget ih =>
      rw [Machine.follow_spacedAfter_succ]
      by_cases goesOn : machine.step.answer = .ok .running
      · rw [runAfter_succ_of_running _ _ _ goesOn, Turn.andThen_of_running goesOn]
        obtain ⟨ending, finish, events⟩ := ih (executed + 1)
          ((machine.step.events.filter pace.keeps).reverse ++ told)
          (machine.step.machine.tickAt pace.interval (executed + 1))
        refine ⟨ending, finish, ?_⟩
        rw [events]
        simp
      · rw [runAfter_succ_of_stop _ _ _ goesOn, Turn.andThen_of_stop goesOn]
        refine ⟨rfl, rfl, ?_⟩
        simp

/-- The steps that the loop counts all answer `running`, and it ends right after them. -/
theorem runAfter_endsAt (machine : Machine σ) (budget : Nat) :
    ∃ done, (pace.runAfter executed told machine budget).executed = executed + done ∧
      (machine.follow (Beat.spacedAfter pace.interval executed done)).answer = .ok .running ∧
      (pace.runAfter executed told machine budget).EndsAt
        (machine.follow (Beat.spacedAfter pace.interval executed done)).machine
        (executed + budget) := by
  -- What has been executed and what is left of the budget keep their sum.
  induction budget generalizing executed told machine with
  | zero => exact ⟨0, rfl, rfl, .inl ⟨rfl, rfl, rfl⟩⟩
  | succ budget ih =>
      by_cases goesOn : machine.step.answer = .ok .running
      · obtain ⟨done, counted, running, ends⟩ := ih (executed + 1)
          ((machine.step.events.filter pace.keeps).reverse ++ told)
          (machine.step.machine.tickAt pace.interval (executed + 1))
        rw [runAfter_succ_of_running _ _ _ goesOn]
        refine ⟨done + 1, by rw [counted, Nat.add_right_comm, Nat.add_assoc], ?_⟩
        rw [Machine.follow_spacedAfter_succ, Turn.andThen_of_running goesOn, Nat.add_comm budget 1,
          ← Nat.add_assoc]
        exact ⟨running, ends⟩
      · rw [runAfter_succ_of_stop _ _ _ goesOn]
        exact ⟨0, rfl, rfl, .inr ⟨Nat.lt_add_of_pos_right (Nat.succ_pos budget), goesOn, rfl, rfl⟩⟩

/-- The loop ends as the driver of frames does. The steps that it counts are all those that
answered `running`, and as many ticks come between them as whole intervals fit into their number. -/
structure KeepsFrames (machine : Machine σ) (budget : Nat) : Prop where
  ending_eq : (pace.run machine budget).ending = (machine.runInFrames pace.interval budget).answer
  machine_eq : (pace.run machine budget).machine =
    (machine.runInFrames pace.interval budget).machine
  events_eq : (pace.run machine budget).events =
    (machine.runInFrames pace.interval budget).events.filter pace.keeps
  executed_le : (pace.run machine budget).executed ≤ budget
  count_step : (Beat.spaced pace.interval (pace.run machine budget).executed).count .step =
    (pace.run machine budget).executed
  count_tick : (Beat.spaced pace.interval (pace.run machine budget).executed).count .tick =
    (pace.run machine budget).executed / pace.interval
  all_running : (machine.follow
    (Beat.spaced pace.interval (pace.run machine budget).executed)).answer = .ok .running
  endsAt : (pace.run machine budget).EndsAt
    (machine.follow (Beat.spaced pace.interval (pace.run machine budget).executed)).machine budget

variable {pace}

theorem keepsFrames (positive : 0 < pace.interval) (machine : Machine σ) (budget : Nat) :
    pace.KeepsFrames machine budget := by
  have frames : machine.runInFrames pace.interval budget =
      machine.follow (Beat.spaced pace.interval budget) := by
    rw [Beat.spaced_eq_framed positive, Machine.runInFrames_eq_follow]
  obtain ⟨ending, finish, events⟩ := pace.runAfter_eq_follow 0 [] machine budget
  obtain ⟨done, counted, running, ends⟩ := pace.runAfter_endsAt 0 [] machine budget
  have executed : (pace.run machine budget).executed = done := counted.trans (Nat.zero_add done)
  rw [Nat.zero_add] at ends
  refine ⟨?_, ?_, ?_, ?_, Beat.count_step_spaced _ _, Beat.count_tick_spaced positive _, ?_, ?_⟩
  · rw [frames]
    exact ending
  · rw [frames]
    exact finish
  · rw [frames]
    exact events
  · rcases ends with ⟨all, _⟩ | ⟨early, _⟩
    · exact Nat.le_of_eq all
    · exact Nat.le_of_lt early
  · rw [executed]
    exact running
  · rw [executed]
    exact ends

end Pace

namespace Machine

/-- After some steps, fewer steps than the budget lead to the machine, all of them answering
`running`. -/
def VisitsAfter (machine : Machine σ) (interval executed budget : Nat) (here : Machine σ) : Prop :=
  ∃ done < budget,
    (machine.follow (Beat.spacedAfter interval executed done)).answer = .ok .running ∧
      (machine.follow (Beat.spacedAfter interval executed done)).machine = here

/-- A run that ticks at the interval makes a step from the machine. -/
def Visits (machine : Machine σ) (interval budget : Nat) (here : Machine σ) : Prop :=
  machine.VisitsAfter interval 0 budget here

variable {machine here : Machine σ} {interval executed budget : Nat}

theorem visitsAfter_self (machine : Machine σ) (interval executed budget : Nat) :
    machine.VisitsAfter interval executed (budget + 1) machine :=
  ⟨0, Nat.succ_pos budget, rfl, rfl⟩

theorem VisitsAfter.of_running (goesOn : machine.step.answer = .ok .running)
    (later : (machine.step.machine.tickAt interval (executed + 1)).VisitsAfter interval
      (executed + 1) budget here) :
    machine.VisitsAfter interval executed (budget + 1) here := by
  obtain ⟨done, before, running, rfl⟩ := later
  refine ⟨done + 1, Nat.succ_lt_succ before, ?_⟩
  rw [follow_spacedAfter_succ, Turn.andThen_of_running goesOn]
  exact ⟨running, rfl⟩

/-- The loop ends at the step that does not answer `running`. -/
theorem VisitsAfter.runAfter_eq (visits : machine.VisitsAfter interval executed budget here)
    (stops : here.step.answer ≠ .ok .running) (keeps : Event → Bool) (told : List Event) :
    (Pace.runAfter ⟨interval, keeps⟩ executed told machine budget).ending = here.step.answer ∧
      (Pace.runAfter ⟨interval, keeps⟩ executed told machine budget).machine =
        here.step.machine := by
  obtain ⟨done, before, running, rfl⟩ := visits
  induction done generalizing machine executed told budget with
  | zero =>
      cases budget with
      | zero => cases before
      | succ budget =>
          have ended : machine.step.answer ≠ .ok .running := stops
          rw [Pace.runAfter_succ_of_stop _ _ _ ended]
          exact ⟨rfl, rfl⟩
  | succ done ih =>
      cases budget with
      | zero => cases before
      | succ budget =>
          rw [follow_spacedAfter_succ] at running stops ⊢
          by_cases goesOn : machine.step.answer = .ok .running
          · rw [Turn.andThen_of_running goesOn] at running stops ⊢
            rw [Pace.runAfter_succ_of_running _ _ _ goesOn]
            exact ih _ (Nat.lt_of_succ_lt_succ before) running stops
          · rw [Turn.andThen_of_stop goesOn] at running
            exact absurd running goesOn

end Machine

/-! ## The command -/

namespace Outcome

/-- The machine that the command runs, with the image in its memory. -/
def loaded (entropy : Random.CipherKey) (image : Image) : Machine Slots :=
  ((Machine.powerOn {} entropy).loadImage image).machine

theorem ofRun_of_length_le (threshold : Threshold) (entropy : Random.CipherKey) (file : String)
    (steps : Nat) (rate : Rate) {image : Image} (fits : image.length ≤ 3584) :
    ofRun threshold entropy file steps rate image =
      .tried ⟨file, image.length, steps, rate, [.loaded image.words.length],
        Pace.run ⟨rate.stepsPerTick, keeps threshold⟩ (loaded entropy image) steps⟩ := by
  have length := image.length_words
  have short : image.words.length ≤ Memory.programCapacity := by
    simp only [Memory.programCapacity, Memory.programStart]
    omega
  simp only [ofRun, loaded, Machine.loadImage, Machine.load_of_le short]

theorem ofRun_of_lt_length (threshold : Threshold) (entropy : Random.CipherKey) (file : String)
    (steps : Nat) (rate : Rate) {image : Image} (large : 3584 < image.length) :
    ofRun threshold entropy file steps rate image =
      .notLoaded (.programTooLarge image.words.length) := by
  have length := image.length_words
  have long : Memory.programCapacity < image.words.length := by
    simp only [Memory.programCapacity, Memory.programStart]
    omega
  simp only [ofRun, Machine.loadImage, Machine.load_of_lt long, Turn.refused]

/-- Every image that fits is tried, and the loop of the command keeps the frames: for the random
bytes that the host's entropy gives, and for every other machine that the image is loaded into. -/
theorem ofRun_keeps_frames {image : Image} (fits : image.length ≤ 3584) (threshold : Threshold)
    (steps : Nat) (rate : Rate) :
    let pace : Pace := ⟨max (rate.hertz / 60) 1, keeps threshold⟩
    0 < pace.interval ∧
    (∀ entropy file, ∃ trial, ofRun threshold entropy file steps rate image = .tried trial ∧
      trial.paced =
        pace.run ((Machine.powerOn {} entropy : Machine Slots).loadImage image).machine steps) ∧
    ∀ start : Machine Slots, (start.loadImage image).answer = .ok () ∧
      pace.KeepsFrames (start.loadImage image).machine steps := by
  intro pace
  have positive : 0 < pace.interval := rate.stepsPerTick_pos
  have loads (start : Machine Slots) : (start.loadImage image).answer = .ok () :=
    (start.answer_loadImage_eq_ok_iff image).mpr fits
  refine ⟨positive, ?_, fun start => ⟨loads start, Pace.keepsFrames positive _ steps⟩⟩
  intro entropy file
  rw [ofRun, loads]
  exact ⟨_, rfl, rfl⟩

/-- A program that sets the delay timer, reads it after the first tick and stops at a wait for a
key in the second frame of two steps. -/
theorem ofRun_keeps_frames_until_key :
    let image : Image := [0x60, 0x05, 0xF0, 0x15, 0xF1, 0x07, 0xF2, 0x0A]
    let entropy : Random.CipherKey := Vector.replicate 8 0
    let pace : Pace := ⟨max (120 / 60) 1, keeps (.upTo .info)⟩
    let loaded := ((Machine.powerOn {} entropy : Machine Slots).loadImage image).machine
    image.length ≤ 3584 ∧ 0 < pace.interval ∧
      (∃ trial, ofRun (.upTo .info) entropy "maze.ch8" 10 ⟨120⟩ image = .tried trial ∧
        trial.paced.ending = .ok .awaitingKey ∧ trial.paced.executed = 3 ∧
        trial.paced.machine.register 1 = 4) ∧
      pace.KeepsFrames loaded 10 := by
  intro image entropy pace loaded
  have fits : image.length ≤ 3584 := by decide
  obtain ⟨positive, tries, frames⟩ := ofRun_keeps_frames fits (.upTo .info) 10 ⟨120⟩
  obtain ⟨trial, tried, paced⟩ := tries entropy "maze.ch8"
  have ending : (pace.run loaded 10).ending = .ok .awaitingKey := by decide +kernel
  have executed : (pace.run loaded 10).executed = 3 := by decide +kernel
  have read : (pace.run loaded 10).machine.register 1 = 4 := by decide +kernel
  rw [← paced] at ending executed read
  exact ⟨fits, positive, ⟨trial, tried, ending, executed, read⟩, (frames _).2⟩

end Outcome

end Chip8
