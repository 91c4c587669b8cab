import Mathlib.Control.Monad.Basic
import Chip8.Proofs.Machine.Soundness

/-!
# Which step faults, and how

The answer of a step is decided by the program counter, the word it points at, the index, the
depth of the call stack and the held key. Beyond the last whole word nothing can be read; a word
that is read either denotes no instruction, or its instruction meets at most one obstacle.
-/

namespace Chip8

@[simp]
theorem Memory.wordAt_of_lt (memory : Memory) {start : Nat} (inside : start < 0xFFF) :
    memory.wordAt start = .ok (Word.ofBytes memory[start] memory[start + 1]) := by
  have fits : start + 2 ≤ 0x1000 := by omega
  simp [wordAt, fits, Except.map]

@[simp]
theorem Memory.wordAt_of_le (memory : Memory) {start : Nat} (beyond : 0xFFF ≤ start) :
    memory.wordAt start = .error (.outOfBounds (max start 0x1000)) := by
  have past : 0x1000 < start + 2 := by omega
  simp [wordAt, past, Except.map]

namespace Machine

section

variable {σ : Type} [CallStack σ] {machine : Machine σ} {word : Word}

omit [CallStack σ] in
theorem upcoming_eq_ok_iff (fetched : machine.memory.wordAt machine.counter = .ok word)
    (instruction : Instruction) :
    machine.upcoming = .ok instruction ↔ word.Denotes instruction := by
  simp only [upcoming, fetched, ← Instruction.decode?_eq_some_iff]
  cases Instruction.decode? word with
  | none => simp
  | some other => simp

omit [CallStack σ] in
theorem upcoming_eq_error_iff (fetched : machine.memory.wordAt machine.counter = .ok word)
    (fault : Fault) :
    machine.upcoming = .error fault ↔ word.Unsupported ∧ .unsupportedOpcode word = fault := by
  simp only [upcoming, fetched, ← Instruction.decode?_eq_none_iff]
  cases Instruction.decode? word with
  | none => simp
  | some other => simp

omit [CallStack σ] in
theorem exists_word_of_upcoming {instruction : Instruction}
    (decoded : machine.upcoming = .ok instruction) :
    ∃ word, machine.memory.wordAt machine.counter = .ok word ∧ word.Denotes instruction := by
  cases fetched : machine.memory.wordAt machine.counter with
  | error fault =>
      rw [upcoming, fetched] at decoded
      cases decoded
  | ok word => exact ⟨word, rfl, (upcoming_eq_ok_iff fetched instruction).mp decoded⟩

theorem machine_step_of_ok {instruction : Instruction}
    (decoded : machine.upcoming = .ok instruction) :
    machine.step.machine = (machine.execute instruction).machine := by
  simp only [step, decoded, Turn.after]

theorem answer_step_of_ok {instruction : Instruction}
    (decoded : machine.upcoming = .ok instruction) :
    machine.step.answer = (machine.execute instruction).answer := by
  simp only [step, decoded, Turn.after]

theorem answer_step_of_error {fault : Fault} (refused : machine.upcoming = .error fault) :
    machine.step.answer = .error fault := by
  simp only [step, refused, Turn.refused]

theorem answer_step_eq_error_iff (fetched : machine.memory.wordAt machine.counter = .ok word)
    (fault : Fault) :
    machine.step.answer = .error fault ↔
      (word.Unsupported ∧ .unsupportedOpcode word = fault) ∨
        ∃ instruction, word.Denotes instruction ∧ machine.Obstacle instruction fault := by
  rw [← upcoming_eq_error_iff fetched]
  simp only [← upcoming_eq_ok_iff fetched, ← answer_execute_iff]
  cases decoded : machine.upcoming with
  | error other => simp [answer_step_of_error decoded]
  | ok instruction => simp [answer_step_of_ok decoded]

theorem answer_step_iff_obstacle (fetched : machine.memory.wordAt machine.counter = .ok word)
    (fault : Fault) (other : .unsupportedOpcode word ≠ fault) :
    machine.step.answer = .error fault ↔
      ∃ instruction, word.Denotes instruction ∧ machine.Obstacle instruction fault := by
  rw [answer_step_eq_error_iff fetched, or_iff_right (fun decoding => other decoding.2)]

theorem answer_step_of_ge (beyond : 0xFFF ≤ machine.counter) :
    machine.step.answer = .error (.outOfBounds (max machine.counter 0x1000)) := by
  have refused : machine.upcoming = .error (.outOfBounds (max machine.counter 0x1000)) := by
    simp [upcoming, beyond]
  exact answer_step_of_error refused

theorem answer_execute_eq_awaitingKey_iff (machine : Machine σ) (instruction : Instruction) :
    (machine.execute instruction).answer = .ok .awaitingKey ↔
      (∃ x, instruction = .awaitKey x) ∧ machine.held? = none := by
  constructor
  · intro waits
    have effect := machine.effect_execute instruction
    generalize machine.execute instruction = turn at effect waits
    cases effect with
    | park empty => exact ⟨⟨_, rfl⟩, empty⟩
    | _ => cases waits
  · rintro ⟨⟨x, rfl⟩, empty⟩
    simp only [execute, empty]

theorem answer_step_awaitingKey_iff
    (fetched : machine.memory.wordAt machine.counter = .ok word) :
    machine.step.answer = .ok .awaitingKey ↔
      word.family.val = 0xF ∧ word.lowByte = 0x0A ∧ machine.held? = none := by
  constructor
  · intro waits
    cases decoded : machine.upcoming with
    | error fault => cases (answer_step_of_error decoded).symm.trans waits
    | ok instruction =>
        rw [answer_step_of_ok decoded, answer_execute_eq_awaitingKey_iff] at waits
        obtain ⟨⟨x, rfl⟩, empty⟩ := waits
        obtain ⟨family, selector, _⟩ := (upcoming_eq_ok_iff fetched _).mp decoded
        exact ⟨family, selector, empty⟩
  · rintro ⟨family, selector, empty⟩
    have decoded := (upcoming_eq_ok_iff fetched (.awaitKey word.x)).mpr ⟨family, selector, rfl⟩
    rw [answer_step_of_ok decoded, answer_execute_eq_awaitingKey_iff]
    exact ⟨⟨word.x, rfl⟩, empty⟩

/-- Every fault of a step is one of four kinds. -/
theorem fault_of_step {fault : Fault} (refused : machine.step.answer = .error fault) :
    (∃ word, fault = .unsupportedOpcode word) ∨ fault = .stackUnderflow ∨
      (∃ depth, fault = .stackOverflow depth) ∨ ∃ address, fault = .outOfBounds address := by
  rcases Nat.lt_or_ge machine.counter 0xFFF with inside | beyond
  · have fetched := machine.memory.wordAt_of_lt inside
    rcases (answer_step_eq_error_iff fetched fault).mp refused with ⟨_, same⟩ | ⟨_, _, obstacle⟩
    · exact .inl ⟨_, same.symm⟩
    · cases obstacle with
      | underflow => exact .inr (.inl rfl)
      | overflow => exact .inr (.inr (.inl ⟨_, rfl⟩))
      | outOfBounds => exact .inr (.inr (.inr ⟨_, rfl⟩))
  · rw [answer_step_of_ge beyond] at refused
    cases refused
    exact .inr (.inr (.inr ⟨_, rfl⟩))

theorem answer_step_unsupported_iff
    (fetched : machine.memory.wordAt machine.counter = .ok word) (other : Word) :
    machine.step.answer = .error (.unsupportedOpcode other) ↔
      other = word ∧ word.Unsupported := by
  rw [answer_step_eq_error_iff fetched]
  constructor
  · rintro (⟨unsupported, same⟩ | ⟨_, _, obstacle⟩)
    · cases same
      exact ⟨rfl, unsupported⟩
    · cases obstacle
  · rintro ⟨rfl, unsupported⟩
    exact .inl ⟨unsupported, rfl⟩

theorem answer_step_outOfBounds_iff
    (fetched : machine.memory.wordAt machine.counter = .ok word) (address : Nat) :
    machine.step.answer = .error (.outOfBounds address) ↔
      address = max machine.index.toNat 0x1000 ∧
        ∃ length, word.Spans length ∧ 0x1000 < machine.index.toNat + length := by
  rw [answer_step_iff_obstacle fetched (.outOfBounds address) nofun]
  constructor
  · rintro ⟨_, denotes, overrun⟩
    cases overrun with
    | outOfBounds span past => exact ⟨rfl, _, (denotes.spans_iff _).mp span, past⟩
  · rintro ⟨rfl, length, spans, past⟩
    obtain ⟨instruction, denotes, span⟩ := spans.exists_denotes
    exact ⟨instruction, denotes, .outOfBounds span past⟩

end

section

variable {machine : Machine Slots} {word : Word}

theorem answer_step_underflow_iff
    (fetched : machine.memory.wordAt machine.counter = .ok word) :
    machine.step.answer = .error .stackUnderflow ↔ word = 0x00EE ∧ machine.depth = 0 := by
  have leave : word = 0x00EE ↔ word.Denotes .leave := word.eq_ofNat_iff (by decide)
  rw [answer_step_iff_obstacle fetched .stackUnderflow nofun, leave]
  constructor
  · rintro ⟨_, denotes, underflow⟩
    cases underflow with
    | underflow empty => exact ⟨denotes, Slots.pop?_eq_none_iff.mp empty⟩
  · rintro ⟨denotes, empty⟩
    exact ⟨_, denotes, .underflow (Slots.pop?_eq_none_iff.mpr empty)⟩

theorem answer_step_overflow_iff (sound : machine.Sound)
    (fetched : machine.memory.wordAt machine.counter = .ok word) (depth : Nat) :
    machine.step.answer = .error (.stackOverflow depth) ↔
      depth = machine.config.stackLimit + 1 ∧
        word.family.val = 0x2 ∧ machine.depth = machine.config.stackLimit := by
  have limit : min machine.config.stackLimit 16 = machine.config.stackLimit :=
    Nat.min_eq_left sound.limit_le
  rw [answer_step_iff_obstacle fetched (.stackOverflow depth) nofun]
  constructor
  · rintro ⟨_, denotes, overflow⟩
    cases overflow with
    | overflow address full =>
        rw [limit] at full
        have reached : machine.depth = machine.config.stackLimit :=
          Nat.le_antisymm sound.calls.live_le full
        exact ⟨congrArg (· + 1) reached, denotes.1, reached⟩
  · rintro ⟨rfl, family, reached⟩
    refine ⟨.call word.address, ⟨family, rfl⟩, ?_⟩
    rw [← reached]
    exact .overflow _ (by rw [limit]; exact Nat.le_of_eq reached.symm)

end

/-! ## Answers -/

/-- What a machine answers when its next step reads the given word. -/
structure Answers (machine : Machine Slots) (word : Word) : Prop where
  unsupported_iff : ∀ other, machine.step.answer = .error (.unsupportedOpcode other) ↔
    other = word ∧ word.Unsupported
  underflow_iff : machine.step.answer = .error .stackUnderflow ↔
    word = 0x00EE ∧ machine.depth = 0
  overflow_iff : ∀ depth, machine.step.answer = .error (.stackOverflow depth) ↔
    depth = machine.config.stackLimit + 1 ∧
      word.family.val = 0x2 ∧ machine.depth = machine.config.stackLimit
  outOfBounds_iff : ∀ address, machine.step.answer = .error (.outOfBounds address) ↔
    address = max machine.index.toNat 0x1000 ∧
      ∃ length, word.Spans length ∧ 0x1000 < machine.index.toNat + length
  /-- The address is the first of a span that is not in memory. -/
  outOfBounds_first : ∀ address length, machine.step.answer = .error (.outOfBounds address) →
    word.Spans length → 0 < length →
      machine.index.toNat ≤ address ∧ address < machine.index.toNat + length ∧
        0x1000 ≤ address ∧
        ∀ earlier, machine.index.toNat ≤ earlier → earlier < address → earlier < 0x1000
  no_rows_iff : word.family.val = 0xD → word.lastDigit.val = 0 →
    ((∃ fault, machine.step.answer = .error fault) ↔ 0x1000 < machine.index.toNat)
  ok_iff : (∃ status, machine.step.answer = .ok status) ↔
    ¬ word.Unsupported ∧ ¬ (word = 0x00EE ∧ machine.depth = 0) ∧
      ¬ (word.family.val = 0x2 ∧ machine.depth = machine.config.stackLimit) ∧
      ¬ ∃ length, word.Spans length ∧ 0x1000 < machine.index.toNat + length
  awaitingKey_iff : machine.step.answer = .ok .awaitingKey ↔
    word.family.val = 0xF ∧ word.lowByte = 0x0A ∧ machine.held? = none

variable {machine : Machine Slots} {word : Word}

theorem answer_step_ok_iff (sound : machine.Sound)
    (fetched : machine.memory.wordAt machine.counter = .ok word) :
    (∃ status, machine.step.answer = .ok status) ↔
      ¬ word.Unsupported ∧ ¬ (word = 0x00EE ∧ machine.depth = 0) ∧
        ¬ (word.family.val = 0x2 ∧ machine.depth = machine.config.stackLimit) ∧
        ¬ ∃ length, word.Spans length ∧ 0x1000 < machine.index.toNat + length := by
  have unsupported := answer_step_unsupported_iff fetched
  have underflow := answer_step_underflow_iff fetched
  have overflow := answer_step_overflow_iff sound fetched
  have outOfBounds := answer_step_outOfBounds_iff fetched
  constructor
  · rintro ⟨status, ok⟩
    refine ⟨fun nothing => ?_, fun empty => ?_, fun full => ?_, fun overrun => ?_⟩
    · cases ok.symm.trans ((unsupported word).mpr ⟨rfl, nothing⟩)
    · cases ok.symm.trans (underflow.mpr empty)
    · cases ok.symm.trans ((overflow _).mpr ⟨rfl, full⟩)
    · cases ok.symm.trans ((outOfBounds _).mpr ⟨rfl, overrun⟩)
  · rintro ⟨nothing, empty, full, overrun⟩
    cases answer : machine.step.answer with
    | ok status => exact ⟨status, rfl⟩
    | error fault =>
        rcases fault_of_step answer with ⟨_, rfl⟩ | rfl | ⟨_, rfl⟩ | ⟨_, rfl⟩
        · exact absurd ((unsupported _).mp answer).2 nothing
        · exact absurd (underflow.mp answer) empty
        · exact absurd ((overflow _).mp answer).2 full
        · exact absurd ((outOfBounds _).mp answer).2 overrun

theorem answer_step_no_rows_iff (sound : machine.Sound)
    (fetched : machine.memory.wordAt machine.counter = .ok word)
    (family : word.family.val = 0xD) (rows : word.lastDigit.val = 0) :
    (∃ fault, machine.step.answer = .error fault) ↔ 0x1000 < machine.index.toNat := by
  have spans : word.Spans 0 := .inl ⟨family, rows.symm⟩
  constructor
  · rintro ⟨fault, refused⟩
    apply Decidable.byContradiction
    intro fits
    have ok : ∃ status, machine.step.answer = .ok status := by
      refine (answer_step_ok_iff sound fetched).mpr ⟨?_, ?_, ?_, ?_⟩
      · simp [Word.Unsupported, family]
      · rintro ⟨rfl, _⟩
        cases family
      · simp [family]
      · rintro ⟨length, other, past⟩
        cases spans.unique other
        exact fits past
    obtain ⟨status, answer⟩ := ok
    cases refused.symm.trans answer
  · intro past
    exact ⟨_, (answer_step_outOfBounds_iff fetched _).mpr ⟨rfl, 0, spans, past⟩⟩

theorem Sound.answers (sound : machine.Sound)
    (fetched : machine.memory.wordAt machine.counter = .ok word) : machine.Answers word where
  unsupported_iff := answer_step_unsupported_iff fetched
  underflow_iff := answer_step_underflow_iff fetched
  overflow_iff := answer_step_overflow_iff sound fetched
  outOfBounds_iff := answer_step_outOfBounds_iff fetched
  outOfBounds_first address length refused spans nonempty := by
    obtain ⟨rfl, other, spansOther, past⟩ := (answer_step_outOfBounds_iff fetched _).mp refused
    cases spans.unique spansOther
    exact ⟨by omega, by omega, by omega, fun earlier _ before => by omega⟩
  no_rows_iff := answer_step_no_rows_iff sound fetched
  ok_iff := answer_step_ok_iff sound fetched
  awaitingKey_iff := answer_step_awaitingKey_iff fetched

theorem upcoming_eq_outOfBounds_iff (machine : Machine Slots) (address : Nat) :
    machine.upcoming = .error (.outOfBounds address) ↔
      0xFFF ≤ machine.counter ∧ address = max machine.counter 0x1000 := by
  rcases Nat.lt_or_ge machine.counter 0xFFF with inside | beyond
  · rw [upcoming_eq_error_iff (machine.memory.wordAt_of_lt inside)]
    constructor
    · rintro ⟨_, impossible⟩
      cases impossible
    · intro ⟨beyond, _⟩
      omega
  · simp only [upcoming, machine.memory.wordAt_of_le beyond, beyond, true_and, Except.error.injEq,
      Fault.outOfBounds.injEq]
    exact eq_comm

/-- The exact answer of every step: past the last whole word nothing is read, and elsewhere the
word that is read decides. -/
theorem answers_of_reachable {machine : Machine Slots} (reachable : machine.Reachable) :
    (∀ address, machine.upcoming = .error (.outOfBounds address) ↔
      0xFFF ≤ machine.counter ∧ address = max machine.counter 0x1000) ∧
    (0xFFF ≤ machine.counter →
      machine.step.answer = .error (.outOfBounds (max machine.counter 0x1000))) ∧
    (∀ inside : machine.counter < 0xFFF, machine.Answers
      (Word.ofBytes machine.memory[machine.counter] machine.memory[machine.counter + 1])) ∧
    (∀ words, machine.step.answer ≠ .error (.programTooLarge words)) ∧
    machine.step.answer ≠ .error .stackLimitOutOfRange := by
  refine ⟨machine.upcoming_eq_outOfBounds_iff, answer_step_of_ge, fun inside => ?_,
    fun words refused => ?_, fun refused => ?_⟩
  · exact reachable.sound.answers (machine.memory.wordAt_of_lt inside)
  · simpa using fault_of_step refused
  · simpa using fault_of_step refused

/-- A sprite of three rows of which two are in memory, and a jump to the last byte. -/
theorem answers_of_reachable_at_edge :
    let blank : Machine Slots := powerOn {} (Vector.replicate 8 0)
    let drawing := blank.performAll [.load [0xAFFE, 0xD003], .step]
    let jumped := blank.performAll [.load [0x1FFF], .step]
    (drawing.Reachable ∧ drawing.counter < 0xFFF ∧
      drawing.step.answer = .error (.outOfBounds 0x1000)) ∧
    (jumped.Reachable ∧ 0xFFF ≤ jumped.counter ∧
      jumped.step.answer = .error (.outOfBounds 0x1000)) := by
  intro blank drawing jumped
  have accepted : ofConfig {} (Vector.replicate 8 0) = .ok blank := rfl
  have start : blank.Reachable := .powerOn accepted
  have drawingReachable : drawing.Reachable := start.performAll _
  have jumpedReachable : jumped.Reachable := start.performAll _
  have inside : drawing.counter < 0xFFF := by decide +kernel
  have beyond : jumped.counter = 0xFFF := by decide +kernel
  have fetched : drawing.memory.wordAt drawing.counter = .ok 0xD003 := by decide +kernel
  have word := Except.ok.inj ((drawing.memory.wordAt_of_lt inside).symm.trans fetched)
  have index : drawing.index = 0xFFE := by decide +kernel
  obtain ⟨_, _, answers, _⟩ := answers_of_reachable drawingReachable
  obtain ⟨_, refused, _⟩ := answers_of_reachable jumpedReachable
  refine ⟨⟨drawingReachable, inside, ?_⟩, ⟨jumpedReachable, Nat.le_of_eq beyond.symm, ?_⟩⟩
  · have law := answers inside
    rw [word] at law
    refine (law.outOfBounds_iff 0x1000).mpr ⟨?_, 3, .inl ⟨rfl, rfl⟩, ?_⟩
    · rw [index]
      rfl
    · rw [index]
      decide
  · have answer := refused (Nat.le_of_eq beyond.symm)
    rw [beyond] at answer
    exact answer

end Machine

end Chip8
