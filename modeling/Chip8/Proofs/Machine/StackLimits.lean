import Mathlib.Control.Monad.Basic
import Chip8.Proofs.Machine.Faults
import Chip8.Proofs.Machine.Surroundings

/-!
# Higher stack limits

The stack limit decides about calls alone, and only whether the stack overflows. So a machine with a
higher limit goes on exactly like one with a lower limit for as long as the stack of the latter does
not overflow, and when it does, its limit is used up and the two were the same up to that step.
-/

namespace Chip8.Machine

section

variable {σ : Type}

def withConfig (machine : Machine σ) (config : Config) : Machine σ :=
  { machine with config := config }

/-- The machines are the same but for their configurations. -/
structure SameState (first second : Machine σ) : Prop where
  core_eq : second.toCore = first.toCore
  random_eq : second.random = first.random

theorem sameState_withConfig (machine : Machine σ) (config : Config) :
    machine.SameState (machine.withConfig config) :=
  ⟨rfl, rfl⟩

theorem SameState.eq_withConfig {first second : Machine σ} (same : first.SameState second) :
    second = first.withConfig second.config := by
  obtain ⟨core, random, config⟩ := second
  obtain ⟨rfl, rfl⟩ := same
  rfl

end

/-- Whether the stack was too deep for a call. -/
def StackOverflows {α : Type} (answer : Except Fault α) : Prop :=
  ∃ depth, answer = .error (.stackOverflow depth)

theorem not_stackOverflows_of_running {answer : Except Fault Status}
    (running : answer = .ok .running) : ¬ StackOverflows answer := by
  rintro ⟨depth, overflows⟩
  cases running.symm.trans overflows

section

variable {σ : Type} [CallStack σ] {machine : Machine σ} {config : Config}
  (raised : machine.config.stackLimit ≤ config.stackLimit)

theorem execute_inward_withConfig (machine : Machine σ) (config : Config)
    {instruction : Instruction} (inward : instruction.looksAround = false) :
    (machine.execute instruction).Agrees (fun first second => second = first.withConfig config)
      ((machine.withConfig config).execute instruction) := by
  have agrees := machine.execute_within ⟨machine.calls, machine.random, config⟩ inward
  have kept := machine.surroundings_execute inward
  refine ⟨agrees.answer_eq, agrees.events_eq, agrees.related.trans ?_⟩
  have calls : (machine.execute instruction).machine.calls = machine.calls :=
    congrArg Surroundings.calls kept
  have random : (machine.execute instruction).machine.random = machine.random :=
    congrArg Surroundings.random kept
  simp only [within, withConfig, calls.symm, random.symm]

include raised

theorem execute_withConfig {instruction : Instruction}
    (fits : ¬ StackOverflows (machine.execute instruction).answer) :
    (machine.execute instruction).Agrees (fun first second => second = first.withConfig config)
      ((machine.withConfig config).execute instruction) := by
  cases looks : instruction.looksAround with
  | false => exact machine.execute_inward_withConfig config looks
  | true =>
      cases instruction with
      | leave =>
          simp only [execute, withConfig]
          cases CallStack.pop machine.calls with
          | error fault => exact ⟨rfl, rfl, rfl⟩
          | ok popped => exact ⟨rfl, rfl, rfl⟩
      | call address =>
          rcases Nat.lt_or_ge (CallStack.depth machine.calls)
              (min machine.config.stackLimit 16) with room | full
          · have roomRaised : CallStack.depth machine.calls < min config.stackLimit 16 :=
              Nat.lt_of_lt_of_le room (by omega)
            simp only [execute, withConfig, CallStack.pushWithin, room, roomRaised, if_true]
            exact ⟨rfl, rfl, rfl⟩
          · have overflows := (Obstacle.overflow address full).execute_eq
            exact absurd ⟨_, congrArg Turn.answer overflows⟩ fits
      | random x mask => exact ⟨rfl, rfl, rfl⟩
      | _ => cases looks

theorem step_withConfig (fits : ¬ StackOverflows machine.step.answer) :
    machine.step.Agrees (fun first second => second = first.withConfig config)
      (machine.withConfig config).step := by
  have same : (machine.withConfig config).upcoming = machine.upcoming := rfl
  unfold step at fits ⊢
  rw [same]
  cases decoded : machine.upcoming with
  | error fault => exact ⟨rfl, rfl, rfl⟩
  | ok instruction =>
      rw [decoded] at fits
      exact (execute_withConfig raised fits).after _

theorem make_withConfig {move : Move}
    (fits : move = .step → ¬ StackOverflows machine.step.answer) :
    (machine.withConfig config).make move = (machine.make move).withConfig config := by
  cases move with
  | load program =>
      simp only [make, load]
      split
      · rfl
      · rfl
  | step => exact (step_withConfig raised (fits rfl)).related
  | tick | hold => rfl

theorem run_withConfig {count : Nat} (fits : ¬ StackOverflows (machine.run count).answer) :
    (machine.run count).Agrees (fun first second => second = first.withConfig config)
      ((machine.withConfig config).run count) := by
  induction count generalizing machine with
  | zero => exact ⟨rfl, rfl, rfl⟩
  | succ count ih =>
      by_cases goesOn : machine.step.answer = .ok .running
      · have stepped := step_withConfig raised (not_stackOverflows_of_running goesOn)
        simp only [run_succ, goesOn] at fits
        have rest := ih (by rw [config_step]; exact raised) fits
        simp only [run_succ, goesOn, ← stepped.answer_eq, ← stepped.events_eq, stepped.related]
        exact ⟨rest.answer_eq, congrArg (machine.step.events ++ ·) rest.events_eq, rest.related⟩
      · rw [run_succ_of_stop goesOn] at fits ⊢
        have stepped := step_withConfig raised fits
        have otherStops : (machine.withConfig config).step.answer ≠ .ok .running :=
          stepped.answer_eq ▸ goesOn
        rw [run_succ_of_stop otherStops]
        exact stepped

theorem perform_withConfig {request : Request}
    (fits : ¬ StackOverflows (machine.perform request).answer) :
    (machine.perform request).Agrees (fun first second => second = first.withConfig config)
      ((machine.withConfig config).perform request) := by
  have unmapped {turn : Turn σ Status} (fits : ¬ StackOverflows (turn.map some).answer) :
      ¬ StackOverflows turn.answer := by
    rintro ⟨depth, overflows⟩
    exact fits ⟨depth, congrArg (Except.map some) overflows⟩
  cases request with
  | load program =>
      simp only [perform, load]
      split
      · exact ⟨rfl, rfl, rfl⟩
      · exact ⟨rfl, rfl, rfl⟩
  | loadImage image =>
      simp only [perform, loadImage, load]
      split
      · exact ⟨rfl, rfl, rfl⟩
      · exact ⟨rfl, rfl, rfl⟩
  | step => exact (step_withConfig raised (unmapped fits)).map _
  | run count => exact (run_withConfig raised (unmapped fits)).map _
  | tick | hold => exact ⟨rfl, rfl, rfl⟩
  | press key =>
      have held : (machine.hold (some key)).config.stackLimit ≤ config.stackLimit := raised
      exact (step_withConfig held (unmapped fits)).map _

end

/-! ## The step that overflows -/

section

variable {σ : Type} [CallStack σ]

/-- Every step among the moves goes on running. -/
def RunsThrough (machine : Machine σ) : List Move → Prop
  | [] => True
  | move :: rest =>
      (move = .step → machine.step.answer = .ok .running) ∧ (machine.make move).RunsThrough rest

/-- The machines are in the same state before and after each of the moves, and step alike. -/
def AgreeThrough (first second : Machine σ) : List Move → Prop
  | [] => first.SameState second
  | move :: rest =>
      first.SameState second ∧ (move = .step → first.step.Agrees SameState second.step) ∧
        (first.make move).AgreeThrough (second.make move) rest

theorem AgreeThrough.runsThrough {first second : Machine σ} {moves : List Move}
    (agree : first.AgreeThrough second moves) (running : first.RunsThrough moves) :
    second.RunsThrough moves := by
  induction moves generalizing first second with
  | nil => trivial
  | cons move rest ih =>
      obtain ⟨_, steps, later⟩ := agree
      refine ⟨fun stepping => ?_, ih later running.2⟩
      rw [← (steps stepping).answer_eq]
      exact running.1 stepping

theorem agreeThrough_withConfig {machine : Machine σ} {config : Config}
    (raised : machine.config.stackLimit ≤ config.stackLimit) {moves : List Move}
    (running : machine.RunsThrough moves) :
    machine.AgreeThrough (machine.withConfig config) moves := by
  induction moves generalizing machine with
  | nil => exact machine.sameState_withConfig config
  | cons move rest ih =>
      have fits (stepping : move = .step) : ¬ StackOverflows machine.step.answer :=
        not_stackOverflows_of_running (running.1 stepping)
      refine ⟨machine.sameState_withConfig config, fun stepping => ?_, ?_⟩
      · have stepped := step_withConfig raised (fits stepping)
        refine ⟨stepped.answer_eq, stepped.events_eq, ?_⟩
        rw [stepped.related]
        exact sameState_withConfig _ config
      · rw [make_withConfig raised fits]
        exact ih (by rw [config_make]; exact raised) running.2

/-- A run that is refused stops at a step that is, and so does not stop earlier elsewhere as long
as the steps before go on running there. -/
theorem exists_step_of_run_error {machine : Machine σ} {count : Nat} {fault : Fault}
    (refused : (machine.run count).answer = .error fault) :
    ∃ done, machine.stepsTaken count = done + 1 ∧
      machine.RunsThrough (List.replicate done .step) ∧
      (machine.makeAll (List.replicate done .step)).step.answer = .error fault ∧
      ∀ other : Machine σ, other.RunsThrough (List.replicate done .step) →
        done < other.stepsTaken count := by
  induction count generalizing machine with
  | zero => cases refused
  | succ count ih =>
      by_cases goesOn : machine.step.answer = .ok .running
      · simp only [run_succ, goesOn] at refused
        obtain ⟨done, taken, running, last, elsewhere⟩ := ih refused
        refine ⟨done + 1, ?_, ⟨fun _ => goesOn, running⟩, last, ?_⟩
        · simp only [stepsTaken, goesOn, taken]
        · rintro other ⟨otherGoesOn, otherRuns⟩
          simp only [stepsTaken, otherGoesOn rfl]
          exact Nat.succ_lt_succ (elsewhere _ otherRuns)
      · have positive (other : Machine σ) : 0 < other.stepsTaken (count + 1) := by
          rw [stepsTaken]
          split
          · exact Nat.succ_pos _
          · exact Nat.one_pos
        rw [run_succ_of_stop goesOn] at refused
        refine ⟨0, ?_, trivial, refused, fun other _ => positive other⟩
        simp only [stepsTaken, refused]

theorem exists_step_of_overflow {machine : Machine σ} {request : Request} {depth : Nat}
    (overflows : (machine.perform request).answer = .error (.stackOverflow depth)) :
    ∃ made, machine.moves request = made ++ [.step] ∧ machine.RunsThrough made ∧
      (machine.makeAll made).step.answer = .error (.stackOverflow depth) ∧
      ∀ other : Machine σ, other.RunsThrough made → made ++ [.step] <+: other.moves request := by
  have unmapped {turn : Turn σ Status}
      (overflows : (turn.map some).answer = .error (.stackOverflow depth)) :
      turn.answer = .error (.stackOverflow depth) := by
    obtain ⟨answer, machine, events⟩ := turn
    cases answer with
    | error fault =>
        cases overflows
        rfl
    | ok status => cases overflows
  cases request with
  | load program | loadImage image =>
      simp only [perform, loadImage, load] at overflows
      split at overflows
      · cases overflows
      · cases overflows
  | step =>
      exact ⟨[], rfl, trivial, unmapped overflows, fun _ _ => List.prefix_refl _⟩
  | run count =>
      obtain ⟨done, taken, running, last, elsewhere⟩ :=
        exists_step_of_run_error (unmapped overflows)
      refine ⟨List.replicate done .step, ?_, running, last, fun other otherRuns => ?_⟩
      · rw [moves, taken, List.replicate_succ']
      · rw [← List.replicate_succ', moves]
        have longer : done + 1 ≤ other.stepsTaken count := elsewhere other otherRuns
        exact List.prefix_replicate_iff.mpr ⟨by simpa using longer, by simp⟩
  | tick | hold => cases overflows
  | press key =>
      refine ⟨[.hold (some key)], rfl, ⟨Move.noConfusion, trivial⟩, unmapped overflows, ?_⟩
      exact fun _ _ => List.prefix_refl _

end

theorem Transfer.live_le {machine : Machine Slots}
    (fits : machine.calls.live ≤ machine.config.stackLimit) {counter : Nat} {calls : Slots}
    (transfer : machine.Transfer counter calls) : calls.live ≤ machine.config.stackLimit := by
  cases transfer with
  | call address room => exact Nat.lt_of_lt_of_le room (Nat.min_le_left _ _)
  | leave popped =>
      have := Slots.live_of_pop? popped
      omega
  | _ => exact fits

def WithinLimit (machine : Machine Slots) : Prop :=
  machine.depth ≤ machine.config.stackLimit

theorem WithinLimit.make {machine : Machine Slots} (fits : machine.WithinLimit) (move : Move) :
    (machine.make move).WithinLimit := by
  unfold WithinLimit at fits ⊢
  rw [config_make]
  cases move with
  | load program =>
      simp only [Machine.make, load]
      split
      · exact Nat.zero_le _
      · exact fits
  | step =>
      rcases machine.step_cases with ⟨fault, _, refused⟩ | ⟨_, turn, _, effect, taken⟩
      · simp only [Machine.make, refused]
        exact fits
      · simp only [Machine.make, taken]
        exact effect.transfer.live_le fits
  | tick | hold => exact fits

/-- A step overflows only where the stack has used up its limit. -/
theorem WithinLimit.depth_of_overflow {machine : Machine Slots} (fits : machine.WithinLimit)
    (allowed : machine.config.stackLimit ≤ 16) {depth : Nat}
    (overflows : machine.step.answer = .error (.stackOverflow depth)) :
    depth = machine.config.stackLimit + 1 := by
  rcases Nat.lt_or_ge machine.counter 0xFFF with inside | beyond
  · have fetched := machine.memory.wordAt_of_lt inside
    obtain ⟨_, _, obstacle⟩ :=
      (answer_step_iff_obstacle fetched (.stackOverflow depth) Fault.noConfusion).mp overflows
    cases obstacle with
    | overflow address full =>
        rw [Nat.min_eq_left allowed] at full
        exact congrArg (· + 1) (Nat.le_antisymm fits full)
  · cases (answer_step_of_ge beyond).symm.trans overflows

theorem WithinLimit.depth_of_perform {machine : Machine Slots} (fits : machine.WithinLimit)
    (allowed : machine.config.stackLimit ≤ 16) {request : Request} {depth : Nat}
    (overflows : (machine.perform request).answer = .error (.stackOverflow depth)) :
    depth = machine.config.stackLimit + 1 := by
  obtain ⟨made, _, _, last, _⟩ := exists_step_of_overflow overflows
  have config : (machine.makeAll made).config = machine.config := machine.config_makeAll made
  have later : (machine.makeAll made).WithinLimit :=
    makeAll_preserves (fun move fits => fits.make move) fits made
  rw [← config]
  exact later.depth_of_overflow (config.symm ▸ allowed) last

theorem performAll_withConfig {σ : Type} [CallStack σ] {machine : Machine σ} {config : Config}
    (raised : machine.config.stackLimit ≤ config.stackLimit) {requests : List Request}
    (fits : ∀ reply ∈ machine.replies requests, ¬ StackOverflows reply.answer) :
    (machine.withConfig config).replies requests = machine.replies requests ∧
      (machine.withConfig config).performAll requests =
        (machine.performAll requests).withConfig config := by
  induction requests generalizing machine with
  | nil => exact ⟨rfl, rfl⟩
  | cons request rest ih =>
      have performed := perform_withConfig raised (fits _ List.mem_cons_self)
      obtain ⟨replies, later⟩ := ih (by simpa using raised)
        fun reply replied => fits reply (List.mem_cons_of_mem _ replied)
      constructor
      · simp only [Machine.replies, performed.answer_eq, performed.events_eq, performed.related,
          replies]
      · rw [performAll, performed.related, later, performAll]

/-- A higher limit changes nothing until the lower one is used up, and then the machines agree up
to the very step that overflows. -/
theorem raising_stack_limit {first second : Machine Slots}
    (raised : first.config.stackLimit ≤ second.config.stackLimit)
    (allowed : second.config.stackLimit ≤ 16) (same : first.SameState second)
    (within : first.depth ≤ first.config.stackLimit) :
    (∀ requests, (∀ reply ∈ first.replies requests, ¬ StackOverflows reply.answer) →
      second.replies requests = first.replies requests ∧
        ∀ earlier, earlier <+: requests →
          (first.performAll earlier).SameState (second.performAll earlier)) ∧
    (∀ requests, ∀ reply ∈ first.replies requests, ∀ depth,
      reply.answer = .error (.stackOverflow depth) → depth = first.config.stackLimit + 1) ∧
    ∀ earlier request depth,
      (∀ reply ∈ first.replies earlier, ¬ StackOverflows reply.answer) →
      ((first.performAll earlier).perform request).answer = .error (.stackOverflow depth) →
      second.replies earlier = first.replies earlier ∧
        (∀ sofar, sofar <+: earlier →
          (first.performAll sofar).SameState (second.performAll sofar)) ∧
        ∃ made, (first.performAll earlier).moves request = made ++ [.step] ∧
          made ++ [.step] <+: (second.performAll earlier).moves request ∧
          (first.performAll earlier).AgreeThrough (second.performAll earlier) made ∧
          ((first.performAll earlier).makeAll made).step.answer =
            .error (.stackOverflow depth) := by
  rw [same.eq_withConfig]
  generalize second.config = config at raised allowed ⊢
  have agree (requests : List Request)
      (fits : ∀ reply ∈ first.replies requests, ¬ StackOverflows reply.answer) :
      (first.withConfig config).replies requests = first.replies requests ∧
        ∀ earlier, earlier <+: requests →
          (first.performAll earlier).SameState ((first.withConfig config).performAll earlier) := by
    refine ⟨(performAll_withConfig raised fits).1, ?_⟩
    rintro earlier ⟨rest, rfl⟩
    rw [replies_append] at fits
    have before := performAll_withConfig raised
      fun reply replied => fits reply (List.mem_append_left _ replied)
    rw [before.2]
    exact sameState_withConfig _ config
  refine ⟨agree, ?_, ?_⟩
  · intro requests reply replied depth overflows
    obtain ⟨earlier, request, _, answer⟩ := exists_of_mem_replies replied
    have fits : (first.performAll earlier).WithinLimit :=
      performAll_preserves (fun move fits => fits.make move) within earlier
    rw [← first.config_performAll earlier]
    refine fits.depth_of_perform ?_ (answer.symm.trans overflows)
    rw [config_performAll]
    exact Nat.le_trans raised allowed
  · intro earlier request depth fits overflows
    obtain ⟨replies, states⟩ := agree earlier fits
    obtain ⟨made, moves, running, last, elsewhere⟩ := exists_step_of_overflow overflows
    have agreeing : (first.performAll earlier).AgreeThrough
        ((first.withConfig config).performAll earlier) made := by
      rw [(performAll_withConfig raised fits).2]
      exact agreeThrough_withConfig (by simpa using raised) running
    exact ⟨replies, states, made, moves, elsewhere _ (agreeing.runsThrough running), agreeing,
      last⟩

/-- Two nested calls, of which a limit of one refuses the second. -/
theorem raising_stack_limit_nested_calls :
    let first : Machine Slots := powerOn ⟨1, some 7⟩ (Vector.replicate 8 0)
    let second : Machine Slots := powerOn ⟨2, some 7⟩ (Vector.replicate 8 0)
    let earlier := [.load [0x2204, 0x1202, 0x2208, 0x00EE, 0x00EE], .tick]
    first.config.stackLimit ≤ second.config.stackLimit ∧ second.config.stackLimit ≤ 16 ∧
      first.SameState second ∧ first.depth ≤ first.config.stackLimit ∧
      (∀ reply ∈ first.replies earlier, ¬ StackOverflows reply.answer) ∧
      ((first.performAll earlier).perform (.run 3)).answer = .error (.stackOverflow 2) ∧
      ((second.performAll earlier).perform (.run 3)).answer = .ok (some .running) ∧
      second.replies earlier = first.replies earlier ∧
      (first.performAll earlier).SameState (second.performAll earlier) ∧
      ∃ made, (first.performAll earlier).moves (.run 3) = made ++ [.step] ∧
        made ++ [.step] <+: (second.performAll earlier).moves (.run 3) ∧
        (first.performAll earlier).AgreeThrough (second.performAll earlier) made ∧
        ((first.performAll earlier).makeAll made).step.answer = .error (.stackOverflow 2) := by
  intro first second earlier
  have raised : first.config.stackLimit ≤ second.config.stackLimit := by decide
  have allowed : second.config.stackLimit ≤ 16 := by decide
  have same : first.SameState second := ⟨rfl, rfl⟩
  have within : first.depth ≤ first.config.stackLimit := by decide
  have answers : (first.replies earlier).map Reply.answer = [.ok none, .ok none] := by
    decide +kernel
  have fits (reply : Reply) (replied : reply ∈ first.replies earlier) :
      ¬ StackOverflows reply.answer := by
    have answered := List.mem_map_of_mem (f := Reply.answer) replied
    rw [answers] at answered
    rintro ⟨depth, overflows⟩
    simp [overflows] at answered
  have overflows :
      ((first.performAll earlier).perform (.run 3)).answer = .error (.stackOverflow 2) := by
    decide +kernel
  have goesOn : ((second.performAll earlier).perform (.run 3)).answer = .ok (some .running) := by
    decide +kernel
  obtain ⟨_, _, upToTheStep⟩ := raising_stack_limit raised allowed same within
  obtain ⟨replies, states, nested⟩ := upToTheStep earlier (.run 3) 2 fits overflows
  exact ⟨raised, allowed, same, within, fits, overflows, goesOn, replies,
    states earlier (List.prefix_refl _), nested⟩

end Chip8.Machine
