import Mathlib.Control.Monad.Basic
import Chip8.Proofs.Machine.KeyDelivery
import Chip8.Proofs.Text.Hex

/-!
# Log lines mirror the run

A step that finds an instruction logs a line for it, with the counter before the step, and a second
line for a routine that it ignores or a wait that it begins. What a sequence of requests logs is
what its single steps and loads log, in order. So there is one line for each time that a machine
begins to wait, and before it begins again a program takes a key or a load succeeds.
-/

namespace Chip8

variable {σ : Type}

def Turn.lines {α : Type} (turn : Turn σ α) : List String :=
  turn.events.map Event.message

def Reply.lines (reply : Reply) : List String :=
  reply.events.map Event.message

def announcesWait (line : String) : Bool :=
  "waiting for key at ".toList.isPrefixOf line.toList

def Event.announcesWait : Event → Bool
  | .awaitingKey _ => true
  | _ => false

theorem head?_toList_append {text : String} {char : Char} (starts : text.toList.head? = some char)
    (rest : String) : (text ++ rest).toList.head? = some char := by
  rw [String.toList_append, List.head?_append, starts, Option.some_or]

theorem announcesWait_of_prefix {line : String}
    (starts : "waiting for key at ".toList <+: line.toList) : announcesWait line = true :=
  List.isPrefixOf_iff_prefix.mpr starts

theorem prefix_toList_append (text rest : String) : text.toList <+: (text ++ rest).toList := by
  rw [String.toList_append]
  exact List.prefix_append _ _

theorem not_announcesWait_of_head? {line : String} {char : Char}
    (starts : line.toList.head? = some char) (other : char ≠ 'w') : announcesWait line = false := by
  rw [← Bool.not_eq_true]
  intro announces
  obtain ⟨rest, split⟩ := List.isPrefixOf_iff_prefix.mp announces
  rw [← split] at starts
  exact other (Option.some.inj starts).symm

/-- A wait can be told from the text of its line, for no other line starts like it. -/
theorem announcesWait_message (event : Event) :
    Chip8.announcesWait event.message = event.announcesWait := by
  cases event with
  | loaded words =>
      have starts : (Event.loaded words).message.toList.head? = some 'l' :=
        head?_toList_append (head?_toList_append (by decide +kernel) _) _
      exact not_announcesWait_of_head? starts (by decide)
  | ignoredRoutine address =>
      have starts : (Event.ignoredRoutine address).message.toList.head? = some 'i' :=
        head?_toList_append (by decide +kernel) _
      exact not_announcesWait_of_head? starts (by decide)
  | executing counter instruction =>
      cases digits : (Hex.capitals 4 counter).toList with
      | nil =>
          have short := congrArg List.length digits
          simp [Hex.capitals] at short
      | cons char rest =>
          have first : (Hex.capitals 4 counter).toList.head? = some char := by
            rw [digits, List.head?_cons]
          have among : char ∈ (Hex.capitals 4 counter).toList := List.mem_of_mem_head? first
          have starts : (Event.executing counter instruction).message.toList.head? = some char :=
            head?_toList_append (head?_toList_append first _) _
          refine not_announcesWait_of_head? starts ?_
          rintro rfl
          exact Hex.notMem_capitals 4 counter (by decide) among
  | awaitingKey counter =>
      have starts : "waiting for key at ".toList <+: "waiting for key at 0x".toList := by
        decide +kernel
      exact announcesWait_of_prefix (starts.trans (prefix_toList_append _ _))

def Instruction.isQuiet : Instruction → Bool
  | .machineRoutine _ | .awaitKey _ => false
  | _ => true

namespace Machine

/-- The lines that follow the line of the instruction itself. -/
def remarks (machine : Machine σ) : Instruction → List String
  | .machineRoutine address => ["ignoring machine code routine call 0x" ++ Hex.capitals 3 address]
  | .awaitKey _ =>
      if machine.held? = none ∧ machine.waiting = false then
        ["waiting for key at 0x" ++ Hex.capitals 4 machine.counter]
      else []
  | _ => []

theorem countP_remarks_of_not_awaitsKey (machine : Machine σ) {instruction : Instruction}
    (awaits : instruction.awaitsKey = false) :
    (machine.remarks instruction).countP announcesWait = 0 := by
  cases instruction with
  | machineRoutine address =>
      have quiet : announcesWait (Event.ignoredRoutine address).message = false :=
        announcesWait_message _
      exact List.countP_cons_of_neg (ne_true_of_eq_false quiet)
  | awaitKey x => cases awaits
  | _ => rfl

theorem countP_remarks_awaitKey (machine : Machine σ) (x : Register) :
    (machine.remarks (.awaitKey x)).countP announcesWait =
      (machine.held?.isNone && !machine.waiting).toNat := by
  have announced : announcesWait (Event.awaitingKey machine.counter).message = true :=
    announcesWait_message _
  have alone : ["waiting for key at 0x" ++ Hex.capitals 4 machine.counter].countP announcesWait =
      1 := List.countP_cons_of_pos announced
  rw [remarks]
  cases machine.held? with
  | some key => rfl
  | none =>
      cases machine.waiting with
      | true => rfl
      | false => exact alone

variable [CallStack σ] {machine : Machine σ}

theorem Effect.events_of_isQuiet {instruction : Instruction} {turn : Turn σ Status}
    (effect : machine.Effect instruction turn) (quiet : instruction.isQuiet = true) :
    turn.events = [] := by
  cases effect with
  | ignore | park => cases quiet
  | _ => rfl

theorem lines_execute (machine : Machine σ) (instruction : Instruction) :
    (machine.execute instruction).lines = machine.remarks instruction := by
  cases instruction with
  | machineRoutine address => rfl
  | awaitKey x =>
      simp only [execute, remarks]
      cases machine.held? with
      | some key => rfl
      | none =>
          cases machine.waiting with
          | true => rfl
          | false => rfl
  | _ => exact congrArg (List.map Event.message) ((machine.effect_execute _).events_of_isQuiet rfl)

theorem lines_step_of_error {fault : Fault} (refused : machine.upcoming = .error fault) :
    machine.step.lines = [] := by
  simp only [step, refused]
  rfl

theorem lines_step_of_ok {instruction : Instruction}
    (decoded : machine.upcoming = .ok instruction) :
    machine.step.lines = (Hex.capitals 4 machine.counter ++ ": " ++ instruction.mnemonic) ::
      machine.remarks instruction := by
  rw [← lines_execute]
  simp only [step, decoded]
  rfl

theorem lines_load_of_ok {program : Program} (loads : (machine.load program).answer = .ok ()) :
    (machine.load program).lines =
      ["loaded program of " ++ toString program.length ++ " words"] := by
  rcases Nat.lt_or_ge Memory.programCapacity program.length with large | fits
  · rw [load_of_lt large] at loads
    cases loads
  · rw [load_of_le fits]
    rfl

theorem lines_load_of_error {program : Program} {fault : Fault}
    (refused : (machine.load program).answer = .error fault) :
    (machine.load program).lines = [] := by
  rcases Nat.lt_or_ge Memory.programCapacity program.length with large | fits
  · rw [load_of_lt large]
    rfl
  · rw [load_of_le fits] at refused
    cases refused

end Machine

variable [CallStack σ]

namespace Occasion

def lines (occasion : Occasion σ) : List String :=
  match occasion.move with
  | .load program => (occasion.machine.load program).lines
  | .step => occasion.machine.step.lines
  | .tick | .hold _ => []

/-- Whether the move makes a machine wait that did not. -/
def parks (occasion : Occasion σ) : Bool :=
  !occasion.machine.waiting && occasion.finish.waiting

end Occasion

namespace Machine

@[simp]
theorem occasions_cons_step (machine : Machine σ) (rest : List Request) :
    machine.occasions (.step :: rest) =
      ⟨machine, .step⟩ :: (Occasion.finish ⟨machine, .step⟩).occasions rest := rfl

theorem lines_run (machine : Machine σ) (count : Nat) :
    (machine.run count).lines = (machine.history (machine.moves (.run count))).flatMap
      Occasion.lines := by
  induction count generalizing machine with
  | zero => rfl
  | succ count ih =>
      by_cases goesOn : machine.step.answer = .ok .running
      · have rest := ih machine.step.machine
        simp only [moves, stepsTaken, goesOn, List.replicate_succ, history, List.flatMap_cons,
          run_succ, Turn.lines, List.map_append] at rest ⊢
        rw [rest]
        rfl
      · rw [run_succ_of_stop goesOn, moves, stepsTaken_succ_of_stop goesOn]
        exact (List.append_nil _).symm

theorem lines_perform (machine : Machine σ) (request : Request) :
    (machine.perform request).lines = (machine.history (machine.moves request)).flatMap
      Occasion.lines := by
  cases request with
  | run count => exact machine.lines_run count
  | _ =>
      simp [perform, moves, history, Occasion.lines, Turn.lines, Turn.map, loadImage, press, make]

theorem lines_replies (machine : Machine σ) (requests : List Request) :
    (machine.replies requests).flatMap Reply.lines =
      (machine.occasions requests).flatMap Occasion.lines := by
  induction requests generalizing machine with
  | nil => rfl
  | cons request rest ih =>
      rw [occasions, movesAll, history_append, makeAll_moves, List.flatMap_append,
        ← lines_perform, replies, List.flatMap_cons, ih]
      rfl

/-! ## Waits that begin -/

theorem Effect.waiting_eq {machine : Machine σ} {instruction : Instruction} {turn : Turn σ Status}
    (effect : machine.Effect instruction turn) (awaits : instruction.awaitsKey = false) :
    turn.machine.waiting = machine.waiting := by
  cases effect with
  | take | park => cases awaits
  | skip =>
      rw [skipWhen_eq]
      rfl
  | _ => rfl

theorem Effect.takesKey_of_unparks {machine : Machine σ} {instruction : Instruction}
    {turn : Turn σ Status} (effect : machine.Effect instruction turn)
    (waits : machine.waiting = true) (free : turn.machine.waiting = false) :
    (∃ x, instruction = .awaitKey x) ∧ turn.answer = .ok .running := by
  cases effect with
  | take => exact ⟨⟨_, rfl⟩, rfl⟩
  | park => cases free
  | skip =>
      rw [skipWhen_eq] at free
      cases waits.symm.trans free
  | _ => cases waits.symm.trans free

theorem countP_lines_step_of_ok {machine : Machine σ} {instruction : Instruction}
    (decoded : machine.upcoming = .ok instruction) :
    machine.step.lines.countP announcesWait =
      (machine.remarks instruction).countP announcesWait := by
  have quiet : announcesWait (Event.executing machine.counter instruction).message = false :=
    announcesWait_message _
  rw [lines_step_of_ok decoded]
  exact List.countP_cons_of_neg (ne_true_of_eq_false quiet)

end Machine

namespace Occasion

theorem parks_eq_false_of_same (occasion : Occasion σ)
    (same : occasion.finish.waiting = occasion.machine.waiting) : occasion.parks = false := by
  rw [parks, same, Bool.not_and_self]

theorem countP_lines_step (machine : Machine σ) :
    machine.step.lines.countP announcesWait = (parks ⟨machine, .step⟩).toNat := by
  rcases machine.step_cases with ⟨fault, refused, taken⟩ |
    ⟨instruction, turn, decoded, effect, taken⟩
  · have unmoved : machine.step.machine.waiting = machine.waiting := by
      rw [taken]
      rfl
    rw [parks_eq_false_of_same ⟨machine, .step⟩ unmoved, Machine.lines_step_of_error refused]
    rfl
  · rw [Machine.countP_lines_step_of_ok decoded]
    cases awaits : instruction.awaitsKey with
    | false =>
        have unmoved : machine.step.machine.waiting = machine.waiting := by
          rw [taken]
          exact effect.waiting_eq awaits
        rw [parks_eq_false_of_same ⟨machine, .step⟩ unmoved,
          machine.countP_remarks_of_not_awaitsKey awaits]
        rfl
    | true =>
        cases instruction with
        | awaitKey x =>
            rw [Machine.countP_remarks_awaitKey, parks, finish, Machine.make]
            cases held : machine.held? with
            | none =>
                rw [(Machine.step_of_not_held decoded held).2, Bool.and_true]
                rfl
            | some key =>
                rw [(Machine.step_of_held decoded held).2]
                exact congrArg Bool.toNat (Bool.and_false _).symm
        | _ => cases awaits

theorem countP_lines_load (machine : Machine σ) (program : Program) :
    (machine.load program).lines.countP announcesWait =
      (parks ⟨machine, .load program⟩).toNat := by
  rw [parks, finish, Machine.make]
  rcases Nat.lt_or_ge Memory.programCapacity program.length with large | fits
  · rw [Machine.load_of_lt large]
    exact congrArg Bool.toNat (Bool.not_and_self machine.waiting).symm
  · have quiet : announcesWait (Event.loaded program.length).message = false :=
      announcesWait_message _
    rw [Machine.load_of_le fits]
    calc [(Event.loaded program.length).message].countP announcesWait
        = 0 := List.countP_cons_of_neg (ne_true_of_eq_false quiet)
      _ = (!machine.waiting && false).toNat := congrArg Bool.toNat (Bool.and_false _).symm

/-- A line tells of each wait that begins, and of nothing else. -/
theorem countP_lines (occasion : Occasion σ) :
    occasion.lines.countP announcesWait = occasion.parks.toNat := by
  obtain ⟨machine, move⟩ := occasion
  cases move with
  | load program => exact countP_lines_load machine program
  | step => exact countP_lines_step machine
  | tick | hold =>
      rw [parks_eq_false_of_same _ rfl]
      rfl

/-- A machine stops waiting when its program takes a key, or when a load succeeds. -/
theorem cases_of_unparks {occasion : Occasion σ} (waits : occasion.machine.waiting = true)
    (free : occasion.finish.waiting = false) :
    (∃ x, occasion.completed? = some (.awaitKey x)) ∨
      ∃ program, occasion.move = .load program ∧
        (occasion.machine.load program).answer = .ok () := by
  obtain ⟨machine, move⟩ := occasion
  cases move with
  | load program =>
      refine .inr ⟨program, rfl, ?_⟩
      rcases Nat.lt_or_ge Memory.programCapacity program.length with large | fits
      · rw [finish, Machine.make, Machine.load_of_lt large] at free
        cases waits.symm.trans free
      · rw [Machine.load_of_le fits]
  | step =>
      refine .inl ?_
      rcases machine.step_cases_completed with
        ⟨_, refused⟩ | ⟨instruction, turn, effect, taken, completed⟩
      · rw [finish, Machine.make, refused] at free
        cases waits.symm.trans free
      · rw [finish, Machine.make, taken] at free
        obtain ⟨⟨x, rfl⟩, running⟩ := effect.takesKey_of_unparks waits free
        exact ⟨x, completed running⟩
  | tick | hold => cases waits.symm.trans free

end Occasion

namespace Machine

theorem countP_lines_occasions (machine : Machine σ) (requests : List Request) :
    ((machine.replies requests).flatMap Reply.lines).countP announcesWait =
      (machine.occasions requests).countP Occasion.parks := by
  rw [lines_replies]
  induction machine.occasions requests with
  | nil => rfl
  | cons occasion rest ih =>
      rw [List.flatMap_cons, List.countP_append, ih, occasion.countP_lines, List.countP_cons]
      cases occasion.parks
      · exact Nat.zero_add _
      · exact Nat.add_comm _ _

theorem exists_unparking {machine : Machine σ} {moves : List Move}
    {between after : List (Occasion σ)} {here : Occasion σ}
    (split : machine.history moves = between ++ here :: after) (waits : machine.waiting = true)
    (free : here.machine.waiting = false) :
    ∃ occasion ∈ between, occasion.machine.waiting = true ∧ occasion.finish.waiting = false := by
  induction between generalizing machine moves with
  | nil =>
      cases moves with
      | nil => cases split
      | cons move rest =>
          cases split
          cases waits.symm.trans free
  | cons first between ih =>
      cases moves with
      | nil => cases split
      | cons move rest =>
          obtain ⟨rfl, later⟩ := List.cons.inj split
          cases still : (machine.make move).waiting with
          | false => exact ⟨_, List.mem_cons_self, waits, still⟩
          | true =>
              obtain ⟨occasion, among, unparks⟩ := ih later still
              exact ⟨occasion, List.mem_cons_of_mem _ among, unparks⟩

theorem parks_of_announces {occasion : Occasion σ}
    (announces : occasion.lines.any announcesWait = true) : occasion.parks = true := by
  have counted : 0 < occasion.lines.countP announcesWait :=
    List.countP_pos_iff.mpr (List.any_eq_true.mp announces)
  rw [occasion.countP_lines] at counted
  cases parks : occasion.parks with
  | true => rfl
  | false =>
      rw [parks] at counted
      cases counted

/-- Only a run can begin more than one wait, or end one and begin another. -/
theorem countP_lines_perform (machine : Machine σ) {request : Request}
    (single : ∀ count, request ≠ .run count) :
    (machine.perform request).lines.countP announcesWait =
      (!machine.waiting && (machine.perform request).machine.waiting).toNat := by
  cases request with
  | load program => exact Occasion.countP_lines_load machine program
  | loadImage image => exact Occasion.countP_lines_load machine image.words
  | step => exact Occasion.countP_lines_step machine
  | run count => exact absurd rfl (single count)
  | tick | hold => exact congrArg Bool.toNat (Bool.not_and_self machine.waiting).symm
  | press key => exact Occasion.countP_lines_step (machine.hold (some key))

theorem exists_between_parks {machine : Machine σ} {moves : List Move}
    {before between after : List (Occasion σ)} {first second : Occasion σ}
    (split : machine.history moves = before ++ first :: (between ++ second :: after))
    (begins : first.parks = true) (again : second.parks = true) :
    ∃ occasion ∈ between, (∃ x, occasion.completed? = some (.awaitKey x)) ∨
      ∃ program, occasion.move = .load program ∧
        (occasion.machine.load program).answer = .ok () := by
  obtain ⟨later, rest⟩ := exists_of_history_after split
  have waits : first.finish.waiting = true := (Bool.and_eq_true_iff.mp begins).2
  have free : second.machine.waiting = false :=
    Bool.not_eq_true' _ ▸ (Bool.and_eq_true_iff.mp again).1
  obtain ⟨occasion, among, waited, ended⟩ := exists_unparking rest.symm waits free
  exact ⟨occasion, among, Occasion.cases_of_unparks waited ended⟩

/-- What single steps, runs and loads log, whatever the machine; how often a wait is announced; and
what lies between two such lines. A run may go on from one wait and begin the next, so the waits
that begin are counted at every step that it makes. -/
theorem log_mirrors_run (start : Machine σ) (requests : List Request) :
    (∀ machine : Machine σ,
      (∀ fault, machine.upcoming = .error fault → machine.step.lines = []) ∧
      (∀ instruction, machine.upcoming = .ok instruction →
        machine.step.lines = (Hex.capitals 4 machine.counter ++ ": " ++ instruction.mnemonic) ::
          machine.remarks instruction) ∧
      (∀ count, (machine.run count).lines =
        (machine.history (List.replicate (machine.stepsTaken count) .step)).flatMap
          Occasion.lines) ∧
      (∀ program, (machine.load program).answer = .ok () →
        (machine.load program).lines =
          ["loaded program of " ++ toString program.length ++ " words"]) ∧
      (∀ program fault, (machine.load program).answer = .error fault →
        (machine.load program).lines = []) ∧
      ∀ request, (∀ count, request ≠ .run count) →
        (machine.perform request).lines.countP announcesWait =
          (!machine.waiting && (machine.perform request).machine.waiting).toNat) ∧
    (start.replies requests).flatMap Reply.lines =
      (start.occasions requests).flatMap Occasion.lines ∧
    ((start.replies requests).flatMap Reply.lines).countP announcesWait =
      (start.occasions requests).countP Occasion.parks ∧
    ∀ before first between second after,
      start.occasions requests = before ++ first :: (between ++ second :: after) →
        first.lines.any announcesWait → second.lines.any announcesWait →
          ∃ occasion ∈ between, (∃ x, occasion.completed? = some (.awaitKey x)) ∨
            ∃ program, occasion.move = .load program ∧
              (occasion.machine.load program).answer = .ok () := by
  refine ⟨fun machine => ⟨?_, ?_, machine.lines_run, ?_, ?_, ?_⟩, start.lines_replies requests,
    start.countP_lines_occasions requests, ?_⟩
  · exact fun _ => lines_step_of_error
  · exact fun _ => lines_step_of_ok
  · exact fun _ => lines_load_of_ok
  · exact fun _ _ => lines_load_of_error
  · exact fun _ => machine.countP_lines_perform
  · intro before first between second after split begins again
    exact exists_between_parks split (parks_of_announces begins) (parks_of_announces again)

/-- An ignored routine, a wait that is polled and ended by a key, a second wait, a return without a
call and a load that is refused. -/
theorem log_mirrors_run_two_waits :
    let start : Machine Slots := powerOn {} (Vector.replicate 8 0)
    let early : List Request := [.load [0x0123, 0xF20A, 0xF30A, 0x00EE], .step]
    let middle : List Request := [.step, .press ⟨7, by decide⟩]
    let late : List Request := [.hold (some ⟨1, by decide⟩), .run 3, .load (List.replicate 1793 0)]
    let requests := early ++ .step :: (middle ++ .step :: late)
    let first : Occasion Slots := ⟨start.performAll early, .step⟩
    let second : Occasion Slots := ⟨first.finish.performAll middle, .step⟩
    (start.replies requests).flatMap Reply.lines =
        ["loaded program of 4 words", "0200: SYS 0x123",
          "ignoring machine code routine call 0x123", "0202: LD v2, K",
          "waiting for key at 0x0202", "0202: LD v2, K", "0202: LD v2, K", "0204: LD v3, K",
          "waiting for key at 0x0204", "0204: LD v3, K", "0206: RET"] ∧
      (start.occasions requests).countP Occasion.parks = 2 ∧
      first.lines.any announcesWait = true ∧ second.lines.any announcesWait = true ∧
      ∃ occasion ∈ first.finish.occasions middle, (∃ x, occasion.completed? = some (.awaitKey x)) ∨
        ∃ program, occasion.move = .load program ∧
          (occasion.machine.load program).answer = .ok () := by
  intro start early middle late requests first second
  have facts : (start.replies requests).flatMap Reply.lines =
      ["loaded program of 4 words", "0200: SYS 0x123",
        "ignoring machine code routine call 0x123", "0202: LD v2, K",
        "waiting for key at 0x0202", "0202: LD v2, K", "0202: LD v2, K", "0204: LD v3, K",
        "waiting for key at 0x0204", "0204: LD v3, K", "0206: RET"] ∧
      first.lines.any announcesWait = true ∧ second.lines.any announcesWait = true := by
    decide +kernel
  obtain ⟨log, begins, again⟩ := facts
  have split : start.occasions requests = start.occasions early ++
      first :: (first.finish.occasions middle ++ second :: second.finish.occasions late) := by
    simp [requests, first, second]
  obtain ⟨_, _, count, between⟩ := log_mirrors_run start requests
  refine ⟨log, ?_, begins, again, between _ first _ second _ split begins again⟩
  rw [← count, log]
  decide +kernel

end Machine

end Chip8
