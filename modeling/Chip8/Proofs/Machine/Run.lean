import Chip8.Machine.Host
import Chip8.Proofs.Machine.Execution

/-!
# Runs and requests

A run is a number of single steps, all of them but perhaps the last answered with `running`. Every
request comes down to moves: loads, single steps, ticks and holds. What these preserve is preserved
by every sequence of requests, also together with what is remembered of the moves so far, and the
moments of a sequence of moves are the machines right after each of its steps. The history of a
sequence of requests has every move with the machine that it was made on, and what each move
preserves of the history before it holds on every occasion.
-/

namespace Chip8

variable {σ : Type} [CallStack σ]

namespace Machine

@[simp]
theorem load_of_le {machine : Machine σ} {program : Program}
    (fits : program.length ≤ Memory.programCapacity) :
    machine.load program =
      ⟨.ok (), { machine with toCore := { Core.initial with memory := .holding program } },
        [.loaded program.length]⟩ := by
  rw [load, if_pos fits, Core.reset_eq_initial]
  rfl

@[simp]
theorem load_of_lt {machine : Machine σ} {program : Program}
    (large : Memory.programCapacity < program.length) :
    machine.load program = .refused (.programTooLarge program.length) machine := by
  rw [load, if_neg (Nat.not_le.mpr large)]

/-- The machine after a number of steps, whatever they answer. -/
def afterSteps (machine : Machine σ) : Nat → Machine σ
  | 0 => machine
  | count + 1 => machine.step.machine.afterSteps count

theorem run_succ_of_stop {machine : Machine σ} (stops : machine.step.answer ≠ .ok .running)
    (count : Nat) : machine.run (count + 1) = machine.step := by
  rw [run_succ]
  split
  · next running => exact absurd running stops
  · rfl

/-- A run takes all its steps, or it stops at the first that does not answer `running`. -/
theorem run_cases (machine : Machine σ) (count : Nat) :
    ((∀ earlier < count, (machine.afterSteps earlier).step.answer = .ok .running) ∧
      (machine.run count).answer = .ok .running ∧
      (machine.run count).machine = machine.afterSteps count) ∨
    ∃ done < count, (∀ earlier < done, (machine.afterSteps earlier).step.answer = .ok .running) ∧
      (machine.afterSteps done).step.answer ≠ .ok .running ∧
      (machine.run count).answer = (machine.afterSteps done).step.answer ∧
      (machine.run count).machine = (machine.afterSteps done).step.machine := by
  induction count generalizing machine with
  | zero => exact .inl ⟨fun _ before => absurd before (Nat.not_lt_zero _), rfl, rfl⟩
  | succ count ih =>
      by_cases goesOn : machine.step.answer = .ok .running
      · have prepend {bound : Nat}
            (later : ∀ earlier < bound,
              (machine.step.machine.afterSteps earlier).step.answer = .ok .running) :
            ∀ earlier < bound + 1, (machine.afterSteps earlier).step.answer = .ok .running := by
          intro earlier before
          cases earlier with
          | zero => exact goesOn
          | succ earlier => exact later earlier (Nat.lt_of_succ_lt_succ before)
        simp only [run_succ, goesOn]
        rcases ih machine.step.machine with
          ⟨running, answer, finish⟩ | ⟨done, before, running, stops, answer, finish⟩
        · exact .inl ⟨prepend running, answer, finish⟩
        · exact .inr ⟨done + 1, Nat.succ_lt_succ before, prepend running, stops, answer, finish⟩
      · rw [run_succ_of_stop goesOn]
        exact .inr ⟨0, Nat.succ_pos count, fun _ before => absurd before (Nat.not_lt_zero _),
          goesOn, rfl, rfl⟩

end Machine

inductive Move where
  | load (program : Program)
  | step
  | tick
  | hold (key? : Option Key)

namespace Machine

def make (machine : Machine σ) : Move → Machine σ
  | .load program => (machine.load program).machine
  | .step => machine.step.machine
  | .tick => machine.tick
  | .hold key? => machine.hold key?

def makeAll (machine : Machine σ) : List Move → Machine σ
  | [] => machine
  | move :: rest => (machine.make move).makeAll rest

@[simp]
theorem makeAll_append (machine : Machine σ) (first second : List Move) :
    machine.makeAll (first ++ second) = (machine.makeAll first).makeAll second := by
  induction first generalizing machine with
  | nil => rfl
  | cons move rest ih => exact ih _

theorem makeAll_preserves {P : Machine σ → Prop}
    (makes : ∀ {machine} move, P machine → P (machine.make move)) {machine : Machine σ}
    (holds : P machine) (moves : List Move) : P (machine.makeAll moves) := by
  induction moves generalizing machine with
  | nil => exact holds
  | cons move rest ih => exact ih (makes move holds)

/-- The machines right after each single step. -/
def moments (machine : Machine σ) : List Move → List (Machine σ)
  | [] => []
  | .step :: rest => machine.step.machine :: machine.step.machine.moments rest
  | move :: rest => (machine.make move).moments rest

end Machine

/-! ## Requests -/

structure Reply where
  answer : Except Fault (Option Status)
  events : List Event

namespace Machine

def stepsTaken (machine : Machine σ) : Nat → Nat
  | 0 => 0
  | count + 1 =>
      match machine.step.answer with
      | .ok .running => machine.step.machine.stepsTaken count + 1
      | _ => 1

/-- The moves that a request comes down to. -/
def moves (machine : Machine σ) : Request → List Move
  | .load program => [.load program]
  | .loadImage image => [.load image.words]
  | .step => [.step]
  | .run count => List.replicate (machine.stepsTaken count) .step
  | .tick => [.tick]
  | .hold key? => [.hold key?]
  | .press key => [.hold (some key), .step]

theorem stepsTaken_succ_of_stop {machine : Machine σ}
    (stops : machine.step.answer ≠ .ok .running) (count : Nat) :
    machine.stepsTaken (count + 1) = 1 := by
  rw [stepsTaken]
  split
  · next running => exact absurd running stops
  · rfl

theorem makeAll_stepsTaken (machine : Machine σ) (count : Nat) :
    machine.makeAll (List.replicate (machine.stepsTaken count) .step) =
      (machine.run count).machine := by
  induction count generalizing machine with
  | zero => rfl
  | succ count ih =>
      by_cases goesOn : machine.step.answer = .ok .running
      · simp only [run_succ, stepsTaken, goesOn]
        rw [List.replicate_succ]
        exact ih machine.step.machine
      · rw [stepsTaken_succ_of_stop goesOn, run_succ_of_stop goesOn]
        rfl

@[simp]
theorem makeAll_moves (machine : Machine σ) (request : Request) :
    machine.makeAll (machine.moves request) = (machine.perform request).machine := by
  cases request with
  | run count => exact machine.makeAll_stepsTaken count
  | _ => rfl

def performAll (machine : Machine σ) : List Request → Machine σ
  | [] => machine
  | request :: rest => (machine.perform request).machine.performAll rest

/-- What each of the requests is answered, and what is told meanwhile. -/
def replies (machine : Machine σ) : List Request → List Reply
  | [] => []
  | request :: rest =>
      let turn := machine.perform request
      ⟨turn.answer, turn.events⟩ :: turn.machine.replies rest

@[simp]
theorem replies_append (machine : Machine σ) (first second : List Request) :
    machine.replies (first ++ second) =
      machine.replies first ++ (machine.performAll first).replies second := by
  induction first generalizing machine with
  | nil => rfl
  | cons request rest ih => exact congrArg (_ :: ·) (ih _)

theorem exists_of_mem_replies {machine : Machine σ} {requests : List Request} {reply : Reply}
    (replied : reply ∈ machine.replies requests) :
    ∃ earlier request, earlier ++ [request] <+: requests ∧
      reply.answer = ((machine.performAll earlier).perform request).answer := by
  induction requests generalizing machine with
  | nil => cases replied
  | cons request rest ih =>
      rcases List.mem_cons.mp replied with rfl | later
      · exact ⟨[], request, List.prefix_append [request] rest, rfl⟩
      · obtain ⟨earlier, other, started, answer⟩ := ih later
        exact ⟨request :: earlier, other, List.cons_prefix_cons.mpr ⟨rfl, started⟩, answer⟩

def movesAll (machine : Machine σ) : List Request → List Move
  | [] => []
  | request :: rest => machine.moves request ++ (machine.perform request).machine.movesAll rest

theorem movesAll_append (machine : Machine σ) (first second : List Request) :
    machine.movesAll (first ++ second) =
      machine.movesAll first ++ (machine.performAll first).movesAll second := by
  induction first generalizing machine with
  | nil => rfl
  | cons request rest ih =>
      rw [List.cons_append, movesAll, ih, movesAll, List.append_assoc, performAll]

@[simp]
theorem makeAll_movesAll (machine : Machine σ) (requests : List Request) :
    machine.makeAll (machine.movesAll requests) = machine.performAll requests := by
  induction requests generalizing machine with
  | nil => rfl
  | cons request rest ih => simp [movesAll, ih, performAll]

theorem perform_preserves {P : Machine σ → Prop}
    (makes : ∀ {machine} move, P machine → P (machine.make move)) {machine : Machine σ}
    (holds : P machine) (request : Request) : P (machine.perform request).machine := by
  rw [← makeAll_moves]
  exact makeAll_preserves makes holds _

theorem performAll_preserves {P : Machine σ → Prop}
    (makes : ∀ {machine} move, P machine → P (machine.make move)) {machine : Machine σ}
    (holds : P machine) (requests : List Request) : P (machine.performAll requests) := by
  rw [← makeAll_movesAll]
  exact makeAll_preserves makes holds _

end Machine

def Request.program? : Request → Option Program
  | .load program => some program
  | .loadImage image => some image.words
  | _ => none

/-- A load, if this is one, is too large for any machine. -/
def Request.LoadsNothing (request : Request) : Prop :=
  ∀ program, request.program? = some program → Memory.programCapacity < program.length

namespace Machine

theorem loadsNothing_iff (machine : Machine σ) {request : Request} {program : Program}
    (loads : request.program? = some program) :
    request.LoadsNothing ↔ ∃ fault, (machine.perform request).answer = .error fault := by
  have answer : (machine.perform request).answer =
      (machine.load program).answer.map fun _ => none := by
    cases request with
    | load | loadImage =>
        cases loads
        rfl
    | _ => cases loads
  rw [answer]
  constructor
  · intro nothing
    rw [load_of_lt (nothing program loads)]
    exact ⟨_, rfl⟩
  · rintro ⟨fault, refused⟩ other same
    cases loads.symm.trans same
    apply Decidable.byContradiction
    intro small
    rw [load_of_le (Nat.le_of_not_lt small)] at refused
    cases refused

theorem exists_of_mem_movesAll {machine : Machine σ} {requests : List Request} {move : Move}
    (made : move ∈ machine.movesAll requests) :
    ∃ request ∈ requests, ∃ earlier : Machine σ, move ∈ earlier.moves request := by
  induction requests generalizing machine with
  | nil => cases made
  | cons request rest ih =>
      rcases List.mem_append.mp made with here | later
      · exact ⟨request, List.mem_cons_self, machine, here⟩
      · obtain ⟨other, listed, found⟩ := ih later
        exact ⟨other, List.mem_cons_of_mem _ listed, found⟩

theorem load_mem_movesAll {machine : Machine σ} {requests : List Request} {program : Program}
    (loaded : .load program ∈ machine.movesAll requests) :
    ∃ request ∈ requests, request.program? = some program := by
  obtain ⟨request, listed, earlier, made⟩ := exists_of_mem_movesAll loaded
  refine ⟨request, listed, ?_⟩
  cases request with
  | load | loadImage =>
      cases List.mem_singleton.mp made
      rfl
  | run count => cases List.eq_of_mem_replicate made
  | _ => simp [moves] at made

/-- What is known after some moves, each noted with the machine that it is made on. -/
def remember {α : Type} (note : Machine σ → Move → α → α) (machine : Machine σ) (known : α) :
    List Move → α
  | [] => known
  | move :: rest => (machine.make move).remember note (note machine move known) rest

theorem remember_preserves {α : Type} {note : Machine σ → Move → α → α}
    {P : α → Machine σ → Prop}
    (notes : ∀ {known machine} move, P known machine →
      P (note machine move known) (machine.make move))
    {machine : Machine σ} {known : α} (holds : P known machine) (moves : List Move) :
    P (machine.remember note known moves) (machine.makeAll moves) := by
  induction moves generalizing machine known with
  | nil => exact holds
  | cons move rest ih => exact ih (notes move holds)

end Machine

/-! ## Histories -/

/-- A move, and the machine that it is made on. -/
structure Occasion (σ : Type) where
  machine : Machine σ
  move : Move

namespace Occasion

def finish (occasion : Occasion σ) : Machine σ :=
  occasion.machine.make occasion.move

/-- The instruction that the move carried out to its end. -/
def completed? (occasion : Occasion σ) : Option Instruction :=
  match occasion.move, occasion.machine.upcoming, occasion.machine.step.answer with
  | .step, .ok instruction, .ok .running => some instruction
  | _, _, _ => none

theorem completed?_eq_some_iff {occasion : Occasion σ} {instruction : Instruction} :
    occasion.completed? = some instruction ↔ occasion.move = .step ∧
      occasion.machine.upcoming = .ok instruction ∧
      occasion.machine.step.answer = .ok .running := by
  unfold completed?
  split
  · next move upcoming answer => simp [move, upcoming, answer]
  · next other =>
      refine iff_of_false (Option.some_ne_none _).symm ?_
      rintro ⟨move, upcoming, answer⟩
      exact other _ move upcoming answer

end Occasion

/-- A step is refused, or it carries out an instruction, to its end if it goes on running. -/
theorem Machine.step_cases_completed (machine : Machine σ) :
    (∃ fault, machine.step = .refused fault machine) ∨
      ∃ instruction turn, machine.Effect instruction turn ∧
        machine.step = turn.after (.executing machine.counter instruction) ∧
        (turn.answer = .ok .running →
          Occasion.completed? ⟨machine, .step⟩ = some instruction) := by
  rcases machine.step_cases with ⟨fault, _, refused⟩ | ⟨instruction, turn, decoded, effect, taken⟩
  · exact .inl ⟨fault, refused⟩
  · refine .inr ⟨instruction, turn, effect, taken, fun running => ?_⟩
    refine Occasion.completed?_eq_some_iff.mpr ⟨rfl, decoded, ?_⟩
    rw [taken]
    exact running

namespace Machine

def history (machine : Machine σ) : List Move → List (Occasion σ)
  | [] => []
  | move :: rest => ⟨machine, move⟩ :: (machine.make move).history rest

/-- All moves that the requests come down to, each with the machine that it is made on. -/
def occasions (machine : Machine σ) (requests : List Request) : List (Occasion σ) :=
  machine.history (machine.movesAll requests)

@[simp]
theorem history_append (machine : Machine σ) (first second : List Move) :
    machine.history (first ++ second) =
      machine.history first ++ (machine.makeAll first).history second := by
  induction first generalizing machine with
  | nil => rfl
  | cons move rest ih => exact congrArg (_ :: ·) (ih _)

@[simp]
theorem occasions_append (machine : Machine σ) (first second : List Request) :
    machine.occasions (first ++ second) =
      machine.occasions first ++ (machine.performAll first).occasions second := by
  rw [occasions, movesAll_append, history_append, makeAll_movesAll]
  rfl

@[simp]
theorem map_move_history (machine : Machine σ) (moves : List Move) :
    (machine.history moves).map Occasion.move = moves := by
  induction moves generalizing machine with
  | nil => rfl
  | cons move rest ih => rw [history, List.map_cons, ih]

theorem history_preserves {P : List (Occasion σ) → Machine σ → Prop}
    (makes : ∀ {made machine} move, P made machine →
      P (made ++ [⟨machine, move⟩]) (machine.make move))
    {machine : Machine σ} {made : List (Occasion σ)} (holds : P made machine) (moves : List Move) :
    P (made ++ machine.history moves) (machine.makeAll moves) := by
  induction moves generalizing machine made with
  | nil =>
      rw [history, List.append_nil]
      exact holds
  | cons move rest ih =>
      rw [history, List.append_cons]
      exact ih (makes move holds)

theorem performAll_preserves_of_occasions {P : Machine σ → Prop} {machine : Machine σ}
    {requests : List Request}
    (keeps : ∀ occasion ∈ machine.occasions requests, P occasion.machine → P occasion.finish)
    (holds : P machine) : P (machine.performAll requests) := by
  rw [← makeAll_movesAll]
  rw [occasions] at keeps
  generalize machine.movesAll requests = moves at keeps ⊢
  induction moves generalizing machine with
  | nil => exact holds
  | cons move rest ih =>
      have here : P (machine.make move) := keeps ⟨machine, move⟩ List.mem_cons_self holds
      exact ih here fun occasion later => keeps occasion (List.mem_cons_of_mem _ later)

theorem exists_of_history_eq {machine : Machine σ} {moves : List Move}
    {before after : List (Occasion σ)} {here : Occasion σ}
    (split : machine.history moves = before ++ here :: after) :
    ∃ earlier, before = machine.history earlier ∧ here.machine = machine.makeAll earlier := by
  induction before generalizing machine moves with
  | nil =>
      cases moves with
      | nil => cases split
      | cons move rest =>
          cases split
          exact ⟨[], rfl, rfl⟩
  | cons first before ih =>
      cases moves with
      | nil => cases split
      | cons move rest =>
          obtain ⟨rfl, later⟩ := List.cons.inj split
          obtain ⟨earlier, rfl, machine_eq⟩ := ih later
          exact ⟨move :: earlier, rfl, machine_eq⟩

/-- What follows an occasion is the history of the machine that its move leads to. -/
theorem exists_of_history_after {machine : Machine σ} {moves : List Move}
    {before after : List (Occasion σ)} {here : Occasion σ}
    (split : machine.history moves = before ++ here :: after) :
    ∃ later, after = here.finish.history later := by
  induction before generalizing machine moves with
  | nil =>
      cases moves with
      | nil => cases split
      | cons move rest =>
          cases split
          exact ⟨rest, rfl⟩
  | cons first before ih =>
      cases moves with
      | nil => cases split
      | cons move rest => exact ih (List.cons.inj split).2

section

variable {P : List (Occasion σ) → Machine σ → Prop}
  (makes : ∀ {made machine} move, P made machine →
    P (made ++ [⟨machine, move⟩]) (machine.make move))

include makes

theorem occasions_preserve {machine : Machine σ} (holds : P [] machine)
    (requests : List Request) : P (machine.occasions requests) (machine.performAll requests) := by
  rw [← makeAll_movesAll]
  exact history_preserves makes holds _

/-- What every move preserves of the history so far holds on each occasion. -/
theorem occasions_preserve_before {machine : Machine σ} (holds : P [] machine)
    {requests : List Request} {before after : List (Occasion σ)} {here : Occasion σ}
    (split : machine.occasions requests = before ++ here :: after) : P before here.machine := by
  obtain ⟨earlier, rfl, machine_eq⟩ := exists_of_history_eq split
  rw [machine_eq]
  exact history_preserves makes holds earlier

end

@[simp]
theorem performAll_append (machine : Machine σ) (first second : List Request) :
    machine.performAll (first ++ second) = (machine.performAll first).performAll second := by
  induction first generalizing machine with
  | nil => rfl
  | cons request rest ih => exact ih _

theorem Reachable.performAll {machine : Machine σ} (reachable : machine.Reachable)
    (requests : List Request) : (machine.performAll requests).Reachable := by
  induction requests generalizing machine with
  | nil => exact reachable
  | cons request rest ih => exact ih (.perform reachable request)

/-- The reachable machines are those that sequences of requests lead to. -/
theorem reachable_iff {machine : Machine σ} :
    machine.Reachable ↔ ∃ config entropy start requests,
      ofConfig config entropy = .ok start ∧ machine = start.performAll requests := by
  constructor
  · intro reachable
    induction reachable with
    | powerOn accepted => exact ⟨_, _, _, [], accepted, rfl⟩
    | perform _ request ih =>
        obtain ⟨config, entropy, start, requests, accepted, rfl⟩ := ih
        refine ⟨config, entropy, start, requests ++ [request], accepted, ?_⟩
        rw [performAll_append]
        rfl
  · rintro ⟨config, entropy, start, requests, accepted, rfl⟩
    exact (Reachable.powerOn accepted).performAll requests

end Machine

end Chip8
