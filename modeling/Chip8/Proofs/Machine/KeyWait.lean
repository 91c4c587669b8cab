import Mathlib.Control.Monad.Basic
import Chip8.Proofs.Machine.Faults

/-!
# Waiting for a key

A machine waits exactly when its last step parked it on an instruction that awaits a key, and only
a step or a load that succeeds could move it from there. While no key comes, nothing that the host
asks does more than count the timers down; a key lets the program go on with it.
-/

namespace Chip8

/-- The key that a request holds down. -/
def Request.key? : Request → Option Key
  | .hold key? => key?
  | .press key => some key
  | _ => none

/-- Neither brings a key nor loads a program. -/
structure Request.Idle (request : Request) : Prop where
  no_key : request.key? = none
  loadsNothing : request.LoadsNothing

def Move.Idle : Move → Prop
  | .load program => Memory.programCapacity < program.length
  | .hold key? => key? = none
  | _ => True

theorem Request.Idle.of_mem_moves {σ : Type} [CallStack σ] {machine : Machine σ}
    {request : Request} (idle : request.Idle) {move : Move}
    (made : move ∈ machine.moves request) : move.Idle := by
  cases request with
  | load | loadImage =>
      cases List.mem_singleton.mp made
      exact idle.loadsNothing _ rfl
  | hold key? =>
      cases List.mem_singleton.mp made
      exact idle.no_key
  | step | tick =>
      cases List.mem_singleton.mp made
      trivial
  | run count =>
      cases List.eq_of_mem_replicate made
      trivial
  | press key => cases idle.no_key

namespace Machine

section

variable {σ : Type} [CallStack σ] {machine : Machine σ} {x : Register}

theorem step_of_held {key : Key} (decoded : machine.upcoming = .ok (.awaitKey x))
    (held : machine.held? = some key) :
    machine.step.answer = .ok .running ∧
      machine.step.machine =
        ({ machine with held? := none, waiting := false }.setRegister x key.toByte).advance := by
  simp only [step, decoded, execute, held]
  exact ⟨rfl, rfl⟩

theorem step_of_not_held (decoded : machine.upcoming = .ok (.awaitKey x))
    (empty : machine.held? = none) :
    machine.step.answer = .ok .awaitingKey ∧
      machine.step.machine = { machine with waiting := true } := by
  simp only [step, decoded, execute, empty]
  exact ⟨rfl, rfl⟩

/-- Of the machines that do not wait, an instruction parks just those that it says it parks. -/
theorem Effect.waiting_iff {instruction : Instruction} {turn : Turn σ Status}
    (effect : machine.Effect instruction turn) (free : machine.waiting = false) :
    turn.machine.waiting = true ↔ turn.answer = .ok .awaitingKey := by
  have busy {waiting : Bool} (same : waiting = false) : ¬ waiting = true := by
    rw [same]
    exact Bool.false_ne_true
  cases effect with
  | park => exact iff_of_true rfl rfl
  | take => exact iff_of_false (busy rfl) nofun
  | skip _ taken =>
      cases taken
      · exact iff_of_false (busy free) nofun
      · exact iff_of_false (busy free) nofun
  | _ => exact iff_of_false (busy free) nofun

theorem Effect.upcoming_of_park {instruction : Instruction} {turn : Turn σ Status}
    (effect : machine.Effect instruction turn) (decoded : machine.upcoming = .ok instruction)
    (parks : turn.answer = .ok .awaitingKey) :
    ∃ x, turn.machine.upcoming = .ok (.awaitKey x) := by
  cases effect with
  | park => exact ⟨_, decoded⟩
  | _ => cases parks

/-- A step adds its answer to those given so far, and a load that succeeds forgets them. -/
def noteAnswer (machine : Machine σ) (move : Move) (answers : List (Except Fault Status)) :
    List (Except Fault Status) :=
  match move with
  | .step => machine.step.answer :: answers
  | .load program =>
      match (machine.load program).answer with
      | .ok () => []
      | .error _ => answers
  | _ => answers

/-- The answers of all single steps since the last load that succeeded, newest first. -/
def answersSinceLoad (machine : Machine σ) (requests : List Request) :
    List (Except Fault Status) :=
  machine.remember noteAnswer [] (machine.movesAll requests)

/-- A machine waits where its last step parked it. -/
structure WaitsWhereParked (answers : List (Except Fault Status)) (machine : Machine σ) : Prop where
  waiting_iff : machine.waiting = true ↔ answers.head? = some (.ok .awaitingKey)
  upcoming_eq : machine.waiting = true → ∃ x, machine.upcoming = .ok (.awaitKey x)

omit [CallStack σ] in
theorem waitsWhereParked_nil (free : machine.waiting = false) : machine.WaitsWhereParked [] := by
  refine ⟨iff_of_false ?_ ?_, fun waits => ?_⟩
  · rw [free]
    exact Bool.false_ne_true
  · exact (Option.some_ne_none _).symm
  · rw [free] at waits
    cases waits

theorem WaitsWhereParked.step {answers : List (Except Fault Status)}
    (parked : machine.WaitsWhereParked answers) :
    machine.step.machine.WaitsWhereParked (machine.step.answer :: answers) := by
  -- A machine that waits stays at its instruction or takes a key, and one that does not wait is
  -- parked only by the step itself.
  cases waits : machine.waiting with
  | true =>
      obtain ⟨x, decoded⟩ := parked.upcoming_eq waits
      cases held : machine.held? with
      | none =>
          obtain ⟨answer, finish⟩ := step_of_not_held decoded held
          rw [answer, finish]
          exact ⟨iff_of_true rfl rfl, fun _ => ⟨x, decoded⟩⟩
      | some key =>
          obtain ⟨answer, finish⟩ := step_of_held decoded held
          rw [answer, finish]
          exact ⟨iff_of_false nofun nofun, nofun⟩
  | false =>
      rcases machine.step_cases with
        ⟨fault, _, refused⟩ | ⟨instruction, turn, decoded, effect, taken⟩
      · have free : ¬ machine.waiting = true := by simp [waits]
        rw [refused]
        exact ⟨iff_of_false free nofun, fun parks => absurd parks free⟩
      · have parks_iff := effect.waiting_iff waits
        rw [taken]
        refine ⟨parks_iff.trans ⟨congrArg some, Option.some.inj⟩, fun parks => ?_⟩
        exact effect.upcoming_of_park decoded (parks_iff.mp parks)

theorem WaitsWhereParked.make {answers : List (Except Fault Status)}
    (parked : machine.WaitsWhereParked answers) (move : Move) :
    (machine.make move).WaitsWhereParked (machine.noteAnswer move answers) := by
  cases move with
  | step => exact parked.step
  | tick | hold => exact ⟨parked.waiting_iff, parked.upcoming_eq⟩
  | load program =>
      rcases Nat.lt_or_ge Memory.programCapacity program.length with large | fits
      · simp only [Machine.make, noteAnswer, load_of_lt large, Turn.refused]
        exact parked
      · simp only [Machine.make, noteAnswer, load_of_le fits]
        exact waitsWhereParked_nil rfl

theorem waitsWhereParked_performAll {config : Config} {entropy : Random.CipherKey}
    {start : Machine σ} (accepted : ofConfig config entropy = .ok start)
    (requests : List Request) :
    (start.performAll requests).WaitsWhereParked (start.answersSinceLoad requests) := by
  have free : start.WaitsWhereParked [] := by
    unfold ofConfig at accepted
    split at accepted
    · cases accepted
      exact waitsWhereParked_nil rfl
    · cases accepted
  rw [← makeAll_movesAll]
  exact remember_preserves (fun move parked => parked.make move) free _

/-! ## While no key comes -/

def withTimers (machine : Machine σ) (delay sound : UInt8) : Machine σ :=
  { machine with delay := delay, sound := sound }

/-- The machine is as before but for its timers, and it waits whenever it is asked to go on. -/
structure StaysParked (machine later : Machine σ) : Prop where
  rest_eq : later.withTimers machine.delay machine.sound = machine
  answer_step : later.step.answer = .ok .awaitingKey
  answer_run : ∀ count, 1 ≤ count → (later.run count).answer = .ok .awaitingKey

theorem makeAll_idle (decoded : machine.upcoming = .ok (.awaitKey x))
    (waits : machine.waiting = true) (empty : machine.held? = none) {moves : List Move}
    (idle : ∀ move ∈ moves, move.Idle) :
    ∃ delay sound, machine.makeAll moves = machine.withTimers delay sound := by
  -- Each idle move leads to a machine that waits before the same instruction without a key.
  induction moves generalizing machine with
  | nil => exact ⟨_, _, rfl⟩
  | cons move rest ih =>
      have restIdle : ∀ move ∈ rest, move.Idle :=
        fun move listed => idle move (List.mem_cons_of_mem _ listed)
      have here := idle move List.mem_cons_self
      rw [makeAll]
      cases move with
      | load program =>
          rw [make, load_of_lt here]
          exact ih decoded waits empty restIdle
      | hold key? =>
          cases here
          rw [make, hold, ← empty]
          exact ih decoded waits empty restIdle
      | tick =>
          obtain ⟨delay, sound, later⟩ := @ih machine.tick decoded waits empty restIdle
          exact ⟨delay, sound, later⟩
      | step =>
          rw [make, (step_of_not_held decoded empty).2, ← waits]
          exact ih decoded waits empty restIdle

theorem staysParked_of_idle (decoded : machine.upcoming = .ok (.awaitKey x))
    (waits : machine.waiting = true) (empty : machine.held? = none) {requests : List Request}
    (idle : ∀ request ∈ requests, request.Idle) :
    machine.StaysParked (machine.performAll requests) := by
  have movesIdle : ∀ move ∈ machine.movesAll requests, move.Idle := by
    intro move made
    obtain ⟨request, asked, _, found⟩ := exists_of_mem_movesAll made
    exact (idle request asked).of_mem_moves found
  obtain ⟨delay, sound, later⟩ := makeAll_idle decoded waits empty movesIdle
  have parks : (machine.withTimers delay sound).step.answer = .ok .awaitingKey :=
    And.left (step_of_not_held decoded empty)
  rw [← makeAll_movesAll, later]
  refine ⟨rfl, parks, fun count asked => ?_⟩
  obtain ⟨more, rfl⟩ := Nat.exists_eq_add_of_le' asked
  rw [run_succ_of_stop (by rw [parks]; nofun)]
  exact parks

/-- The machine after some ticks. -/
def ticked (machine : Machine σ) (ticks : Nat) : Machine σ :=
  machine.performAll (List.replicate ticks .tick)

/-- The program has gone on with the key in the register. -/
def resumed (machine : Machine σ) (x : Register) (key : Key) : Machine σ :=
  { machine.setRegister x key.toByte with
    held? := none
    waiting := false
    counter := machine.counter + 2 }

/-- The register reads the key and the other registers what they read before. -/
structure ReadsKey (machine later : Machine σ) (x : Register) (key : Key) : Prop where
  toNat_get : (later.registers.get x).toNat = key.val
  get_other : ∀ place, place ≠ x → later.registers.get place = machine.registers.get place

/-- The key may be pressed at once, or held down for some ticks before the next step. -/
structure ResumesWith (machine : Machine σ) (x : Register) (key : Key) : Prop where
  answer_press : (machine.press key).answer = .ok .running
  machine_press : (machine.press key).machine = machine.resumed x key
  reads_press : machine.ReadsKey (machine.press key).machine x key
  answer_step : ∀ ticks, ((machine.hold (some key)).ticked ticks).step.answer = .ok .running
  machine_step : ∀ ticks, ((machine.hold (some key)).ticked ticks).step.machine =
    (machine.ticked ticks).resumed x key
  reads_step : ∀ ticks,
    machine.ReadsKey ((machine.hold (some key)).ticked ticks).step.machine x key

omit [CallStack σ] in
theorem readsKey_resumed (machine : Machine σ) (x : Register) (key : Key) :
    machine.ReadsKey (machine.resumed x key) x key where
  toNat_get := by
    have written : (machine.resumed x key).registers.get x = key.toByte :=
      Vector.getElem_set_self x.isLt
    rw [written, Key.toNat_toByte]
  get_other place other :=
    Vector.getElem_set_ne x.isLt place.isLt fun same => other (Fin.ext same.symm)

@[simp]
theorem registers_ticked (machine : Machine σ) (ticks : Nat) :
    (machine.ticked ticks).registers = machine.registers := by
  induction ticks generalizing machine with
  | zero => rfl
  | succ ticks ih => exact ih machine.tick

theorem hold_ticked (machine : Machine σ) (key? : Option Key) (ticks : Nat) :
    (machine.hold key?).ticked ticks = (machine.ticked ticks).hold key? := by
  induction ticks generalizing machine with
  | zero => rfl
  | succ ticks ih => exact ih machine.tick

@[simp]
theorem upcoming_ticked (machine : Machine σ) (ticks : Nat) :
    (machine.ticked ticks).upcoming = machine.upcoming := by
  induction ticks generalizing machine with
  | zero => rfl
  | succ ticks ih => exact ih machine.tick

theorem step_hold (decoded : machine.upcoming = .ok (.awaitKey x)) (key : Key) :
    (machine.hold (some key)).step.answer = .ok .running ∧
      (machine.hold (some key)).step.machine = machine.resumed x key :=
  step_of_held decoded rfl

theorem resumesWith (decoded : machine.upcoming = .ok (.awaitKey x)) (key : Key) :
    machine.ResumesWith x key := by
  have later (ticks : Nat) :
      ((machine.hold (some key)).ticked ticks).step.answer = .ok .running ∧
        ((machine.hold (some key)).ticked ticks).step.machine =
          (machine.ticked ticks).resumed x key := by
    rw [hold_ticked]
    exact step_hold ((machine.upcoming_ticked ticks).trans decoded) key
  refine ⟨(step_hold decoded key).1, (step_hold decoded key).2, ?_, fun ticks => (later ticks).1,
    fun ticks => (later ticks).2, fun ticks => ?_⟩
  · rw [press, (step_hold decoded key).2]
    exact machine.readsKey_resumed x key
  · have reads := (machine.ticked ticks).readsKey_resumed x key
    rw [(later ticks).2]
    exact ⟨reads.toNat_get, by simpa using reads.get_other⟩

end

/-- From power on, a machine waits exactly when its last step since the last good load parked it;
then it stands before a word that awaits a key, nothing but a key moves it from there, and every
key does. -/
theorem key_wait {config : Config} {entropy : Random.CipherKey} {start : Machine Slots}
    (accepted : ofConfig config entropy = .ok start) (requests : List Request) :
    let machine := start.performAll requests
    (machine.waiting = true ↔
      (start.answersSinceLoad requests).head? = some (.ok .awaitingKey)) ∧
    (machine.waiting = true →
      ∃ word, machine.memory.wordAt machine.counter = .ok word ∧ word.family.val = 0xF ∧
        word.lowByte = 0x0A ∧
        (machine.held? = none → ∀ idles : List Request, (∀ request ∈ idles, request.Idle) →
          machine.StaysParked (machine.performAll idles)) ∧
        ∀ key, machine.ResumesWith word.x key) := by
  have parked := waitsWhereParked_performAll accepted requests
  refine ⟨parked.waiting_iff, fun waits => ?_⟩
  obtain ⟨x, decoded⟩ := parked.upcoming_eq waits
  obtain ⟨word, fetched, family, selector, rfl⟩ := exists_word_of_upcoming decoded
  refine ⟨word, fetched, family, selector, ?_, resumesWith decoded⟩
  intro empty idles idle
  exact staysParked_of_idle decoded waits empty idle

/-- A program that sets the delay timer and then waits, through ticks, steps and a load that is too
large, for a key to put in the register numbered two. -/
theorem key_wait_with_timer :
    let start : Machine Slots := powerOn ⟨4, some 1⟩ (Vector.replicate 8 0)
    let requests : List Request := [.load [0x6109, 0xF115, 0xF20A], .run 5, .tick]
    let machine := start.performAll requests
    let idles : List Request :=
      [.tick, .step, .hold none, .run 3, .load (List.replicate 1793 0)]
    ofConfig ⟨4, some 1⟩ (Vector.replicate 8 0) = .ok start ∧
      (machine.waiting = true ∧
        (start.answersSinceLoad requests).head? = some (.ok .awaitingKey)) ∧
      (machine.held? = none ∧ (∀ request ∈ idles, request.Idle) ∧
        machine.StaysParked (machine.performAll idles)) ∧
      machine.ResumesWith ⟨2, by decide⟩ ⟨7, by decide⟩ ∧
      (machine.press ⟨7, by decide⟩).machine.registers.get ⟨2, by decide⟩ = 0x07 := by
  intro start requests machine idles
  have accepted : ofConfig ⟨4, some 1⟩ (Vector.replicate 8 0) = .ok start := rfl
  have waits : machine.waiting = true := by decide +kernel
  have empty : machine.held? = none := by decide +kernel
  have standing : machine.memory.wordAt machine.counter = .ok 0xF20A := by decide +kernel
  have idle : ∀ request ∈ idles, request.Idle := by
    intro request asked
    refine ⟨?_, fun program loads => ?_⟩
    · simp only [idles, List.mem_cons, List.not_mem_nil, or_false] at asked
      rcases asked with rfl | rfl | rfl | rfl | rfl <;> rfl
    · simp only [idles, List.mem_cons, List.not_mem_nil, or_false] at asked
      rcases asked with rfl | rfl | rfl | rfl | rfl <;> cases loads
      rw [List.length_replicate]
      decide
  obtain ⟨waiting_iff, parked⟩ := key_wait accepted requests
  obtain ⟨word, fetched, _, _, stays, resumes⟩ := parked waits
  cases standing.symm.trans fetched
  exact ⟨accepted, ⟨waits, waiting_iff.mp waits⟩, ⟨empty, idle, stays empty idles idle⟩,
    resumes ⟨7, by decide⟩, UInt8.toNat_inj.mp (resumes ⟨7, by decide⟩).reads_press.toNat_get⟩

end Machine

end Chip8
