import Chip8.Machine.Step
import Chip8.Proofs.Instruction.Decoding
import Chip8.Proofs.Text.Hex

/-!
# What mnemonics tell apart

A mnemonic can be read in one way only: no name and no operand contains the marks that stand between
them, and the kinds of operands differ in their letters. So equal mnemonics have equal names and
operands, and these leave nothing of an instruction open but the second register of a shift, which
is not written because it is not used. Instructions of one mnemonic do the same on every machine.
-/

namespace Chip8

theorem takeWhile_append_of_notMem {mark : Char} {first rest : List Char} (free : mark ∉ first)
    (ends : ∀ char ∈ rest.head?, char = mark) :
    (first ++ rest).takeWhile (· != mark) = first := by
  have other : ∀ char ∈ first, (char != mark) = true := by
    intro char listed
    rw [bne_iff_ne]
    rintro rfl
    exact free listed
  have stops : rest.takeWhile (· != mark) = [] := by
    cases rest with
    | nil => rfl
    | cons char rest =>
        cases ends char rfl
        rw [List.takeWhile_cons_of_neg (by simp)]
  rw [List.takeWhile_append_of_pos other, stops, List.append_nil]

theorem append_inj_of_notMem {mark : Char} {first second rest other : List Char}
    (free : mark ∉ first) (freeOther : mark ∉ second)
    (ends : ∀ char ∈ rest.head?, char = mark) (endsOther : ∀ char ∈ other.head?, char = mark)
    (same : first ++ rest = second ++ other) : first = second ∧ rest = other := by
  have firsts : first = second := by
    rw [← takeWhile_append_of_notMem free ends, same,
      takeWhile_append_of_notMem freeOther endsOther]
  subst firsts
  exact ⟨rfl, List.append_cancel_left same⟩

@[simp]
theorem Register.ofNat_val (register : Register) : ofNat register = register :=
  Fin.ext (Nat.mod_eq_of_lt register.isLt)

namespace Operand

theorem isDigit_of_mem_number {value : Nat} {char : Char}
    (listed : char ∈ (number value).text.toList) : char.isDigit := by
  rw [text, Nat.toString_eq_ofList_toDigits, String.toList_ofList] at listed
  exact Nat.isDigit_of_mem_toDigits (by decide) (by decide) listed

theorem number_text_injective : Function.Injective fun value => (number value).text := by
  intro first second same
  have digits : Nat.toDigits 10 first = Nat.toDigits 10 second := by
    have listed := congrArg String.toList same
    simpa [text, Nat.toString_eq_ofList_toDigits] using listed
  rw [← Nat.ofDigitChars_ten_toDigits (n := first), digits, Nat.ofDigitChars_ten_toDigits]

theorem eq_number_of_text_eq {value : Nat} {operand : Operand}
    (same : operand.text = (number value).text) : operand = number value := by
  have digits : ∀ char ∈ operand.text.toList, char.isDigit := by
    rw [same]
    exact fun _ => isDigit_of_mem_number
  cases operand with
  | number other => rw [number_text_injective same]
  | register name => exact absurd (digits 'v' (by simp [text])) (by decide)
  | address target => exact absurd (digits 'x' (by simp [text])) (by decide)
  | index | atIndex => exact absurd (digits 'I' (by simp [text])) (by decide)
  | delay | sound => exact absurd (digits 'T' (by simp [text])) (by decide)
  | key => exact absurd (digits 'K' (by simp [text])) (by decide)
  | decimal => exact absurd (digits 'B' (by simp [text])) (by decide)

theorem text_injective : Function.Injective text := by
  intro first second same
  have letters := congrArg String.toList same
  -- Beside numbers, which hold digits alone, the first letter tells the kind of an operand.
  cases first with
  | number value => exact (eq_number_of_text_eq same.symm).symm
  | register name =>
      cases second with
      | number value => exact eq_number_of_text_eq same
      | register other =>
          have names : Hex.small name = Hex.small other := by
            simpa [text, String.toList_inj] using letters
          rw [Hex.small_injective names]
      | _ => simp [text] at letters
  | address target =>
      cases second with
      | number value => exact eq_number_of_text_eq same
      | address other =>
          have targets : Hex.capitals 3 target = Hex.capitals 3 other := by
            simpa [text, String.toList_inj] using letters
          rw [Fin.ext (Hex.capitals_injective 3 targets)]
      | _ => simp [text] at letters
  | index | atIndex | delay | sound | key | decimal =>
      cases second with
      | number value => exact eq_number_of_text_eq same
      | _ => simp [text] at letters ⊢

theorem comma_notMem_text (operand : Operand) : ',' ∉ operand.text.toList := by
  cases operand with
  | number value => exact fun listed => absurd (isDigit_of_mem_number listed) (by decide)
  | register name => decide +revert
  | address target =>
      have digits := Hex.notMem_capitals 3 target (by decide : ∀ digit < 16,
        (Nat.digitChar digit).toUpper ≠ ',')
      simpa [text] using digits
  | index | atIndex | delay | sound | key | decimal => decide

/-- What follows an operand in a list. -/
def tail : List Operand → List Char
  | [] => []
  | rest => ',' :: (listText rest).toList

@[simp]
theorem toList_listText_cons (operand : Operand) (rest : List Operand) :
    (listText (operand :: rest)).toList = ' ' :: (operand.text.toList ++ tail rest) := by
  cases rest with
  | nil => simp [listText, tail]
  | cons => simp [listText, tail]

theorem comma_of_mem_head?_tail {operands : List Operand} {char : Char}
    (first : char ∈ (tail operands).head?) : char = ',' := by
  cases operands with
  | nil => cases first
  | cons => exact (Option.some.inj first).symm

theorem listText_eq_of_tail_eq {first second : List Operand} (same : tail first = tail second) :
    listText first = listText second := by
  cases first with
  | nil =>
      cases second with
      | nil => rfl
      | cons => cases same
  | cons =>
      cases second with
      | nil => cases same
      | cons => exact String.toList_inj.mp (List.cons.inj same).2

theorem listText_injective : Function.Injective listText := by
  intro first second same
  have letters := congrArg String.toList same
  induction first generalizing second with
  | nil =>
      cases second with
      | nil => rfl
      | cons other later =>
          rw [toList_listText_cons] at letters
          cases letters
  | cons operand rest ih =>
      cases second with
      | nil =>
          rw [toList_listText_cons] at letters
          cases letters
      | cons other later =>
          rw [toList_listText_cons, toList_listText_cons] at letters
          obtain ⟨texts, tails⟩ := append_inj_of_notMem operand.comma_notMem_text
            other.comma_notMem_text (fun _ => comma_of_mem_head?_tail)
            (fun _ => comma_of_mem_head?_tail) (List.cons.inj letters).2
          have lists := listText_eq_of_tail_eq tails
          rw [text_injective (String.toList_inj.mp texts), ih lists (congrArg String.toList lists)]

theorem exists_last_of_ne_nil {operands : List Operand} (named : operands ≠ []) :
    ∃ before, ∃ operand ∈ operands,
      (listText operands).toList = before ++ ' ' :: operand.text.toList := by
  induction operands with
  | nil => exact absurd rfl named
  | cons operand rest ih =>
      rw [toList_listText_cons]
      cases rest with
      | nil => exact ⟨[], operand, List.mem_singleton_self operand, by simp [tail]⟩
      | cons next rest =>
          obtain ⟨before, last, listed, letters⟩ := ih (List.cons_ne_nil next rest)
          refine ⟨' ' :: operand.text.toList ++ ',' :: before, last,
            List.mem_cons_of_mem operand listed, ?_⟩
          simp [tail, letters]

theorem length_text_le {operand : Operand}
    (small : ∀ value, operand = number value → value < 1000) :
    operand.text.toList.length ≤ 5 := by
  cases operand with
  | number value =>
      have digits : (Nat.toDigits 10 value).length ≤ 3 :=
        (Nat.length_toDigits_le_iff (by decide) (by decide)).mpr (small value rfl)
      rw [text, Nat.toString_eq_ofList_toDigits, String.toList_ofList]
      omega
  | address target =>
      have digits := Hex.length_capitals (by decide : 0 < 3) target.isLt
      rw [text, String.toList_append, List.length_append, digits]
      decide
  | register name => simp [text, Hex.small]
  | index | atIndex | delay | sound | key | decimal => decide

theorem blank_of_mem_head?_listText {operands : List Operand} {char : Char}
    (first : char ∈ (listText operands).toList.head?) : char = ' ' := by
  cases operands with
  | nil => cases first
  | cons operand rest =>
      rw [toList_listText_cons] at first
      exact (Option.some.inj first).symm

end Operand

theorem Assembly.eq_of_text_eq {first second : Assembly} (word : ' ' ∉ first.name.toList)
    (wordOther : ' ' ∉ second.name.toList) (same : first.text = second.text) : first = second := by
  obtain ⟨name, operands⟩ := first
  obtain ⟨other, otherOperands⟩ := second
  have letters := congrArg String.toList same
  simp only [text, String.toList_append] at letters
  obtain ⟨names, lists⟩ := append_inj_of_notMem word wordOther
    (fun _ => Operand.blank_of_mem_head?_listText) (fun _ => Operand.blank_of_mem_head?_listText)
    letters
  have namesEqual : name = other := String.toList_inj.mp names
  rw [namesEqual, Operand.listText_injective (String.toList_inj.mp lists)]

namespace Instruction

theorem blank_notMem_name (instruction : Instruction) :
    ' ' ∉ instruction.assembly.name.toList := by
  cases instruction with
  | combine combination => cases combination <;> simp [assembly, Combination.name]
  | _ => simp [assembly]

theorem length_name_le (instruction : Instruction) :
    instruction.assembly.name.toList.length ≤ 5 := by
  cases instruction with
  | combine combination => cases combination <;> simp [assembly, Combination.name]
  | _ => simp [assembly]

theorem number_lt {instruction : Instruction} {value : Nat}
    (listed : .number value ∈ instruction.assembly.operands) : value < 1000 := by
  cases instruction with
  | skipIfByte x byte | skipUnlessByte x byte | setByte x byte | addByte x byte | random x byte =>
      have := byte.toNat_lt
      simp [assembly] at listed
      omega
  | draw x y rows =>
      have := rows.isLt
      simp [assembly] at listed
      omega
  | combine combination => cases combination <;> simp [assembly, Combination.isShift] at listed
  | _ => simp [assembly] at listed

/-- After the last blank of a mnemonic, or in one without blanks, there are at most five letters. -/
theorem exists_last_word (instruction : Instruction) :
    ∃ before last, ' ' :: instruction.mnemonic.toList = before ++ ' ' :: last ∧
      last.length ≤ 5 := by
  rw [mnemonic, Assembly.text, String.toList_append]
  by_cases named : instruction.assembly.operands = []
  · refine ⟨[], instruction.assembly.name.toList, ?_, instruction.length_name_le⟩
    simp [named, Operand.listText]
  · obtain ⟨before, operand, listed, letters⟩ := Operand.exists_last_of_ne_nil named
    refine ⟨' ' :: instruction.assembly.name.toList ++ before, operand.text.toList, ?_, ?_⟩
    · simp [letters]
    · refine Operand.length_text_le fun value same => ?_
      subst same
      exact number_lt listed

theorem assembly_eq_of_mnemonic_eq {first second : Instruction}
    (same : first.mnemonic = second.mnemonic) : first.assembly = second.assembly :=
  Assembly.eq_of_text_eq first.blank_notMem_name second.blank_notMem_name same

/-! ## Instructions -/

/-- The same instruction, but for a shift, whose second register becomes the first. -/
def normalized : Instruction → Instruction
  | .combine combination x y => .combine combination x (if combination.isShift then x else y)
  | instruction => instruction

/-- Reads an instruction in its normal form. -/
def ofAssembly? : Assembly → Option Instruction
  | ⟨"SYS", [.address address]⟩ => some (.machineRoutine address)
  | ⟨"CLS", []⟩ => some .blank
  | ⟨"RET", []⟩ => some .leave
  | ⟨"JP", [.address address]⟩ => some (.jump address)
  | ⟨"CALL", [.address address]⟩ => some (.call address)
  | ⟨"SE", [.register x, .number byte]⟩ => some (.skipIfByte x (UInt8.ofNat byte))
  | ⟨"SNE", [.register x, .number byte]⟩ => some (.skipUnlessByte x (UInt8.ofNat byte))
  | ⟨"SE", [.register x, .register y]⟩ => some (.skipIfSame x y)
  | ⟨"LD", [.register x, .number byte]⟩ => some (.setByte x (UInt8.ofNat byte))
  | ⟨"ADD", [.register x, .number byte]⟩ => some (.addByte x (UInt8.ofNat byte))
  | ⟨"LD", [.register x, .register y]⟩ => some (.combine .copy x y)
  | ⟨"OR", [.register x, .register y]⟩ => some (.combine .or x y)
  | ⟨"AND", [.register x, .register y]⟩ => some (.combine .and x y)
  | ⟨"XOR", [.register x, .register y]⟩ => some (.combine .xor x y)
  | ⟨"ADD", [.register x, .register y]⟩ => some (.combine .add x y)
  | ⟨"SUB", [.register x, .register y]⟩ => some (.combine .subtract x y)
  | ⟨"SHR", [.register x]⟩ => some (.combine .shiftRight x x)
  | ⟨"SUBN", [.register x, .register y]⟩ => some (.combine .subtractFrom x y)
  | ⟨"SHL", [.register x]⟩ => some (.combine .shiftLeft x x)
  | ⟨"SNE", [.register x, .register y]⟩ => some (.skipUnlessSame x y)
  | ⟨"LD", [.index, .address address]⟩ => some (.setIndex address)
  | ⟨"JP", [.register _, .address address]⟩ => some (.jumpFrom address)
  | ⟨"RND", [.register x, .number mask]⟩ => some (.random x (UInt8.ofNat mask))
  | ⟨"DRW", [.register x, .register y, .number rows]⟩ => some (.draw x y (Register.ofNat rows))
  | ⟨"SKP", [.register x]⟩ => some (.skipIfHeld x)
  | ⟨"SKNP", [.register x]⟩ => some (.skipUnlessHeld x)
  | ⟨"LD", [.register x, .delay]⟩ => some (.readDelay x)
  | ⟨"LD", [.register x, .key]⟩ => some (.awaitKey x)
  | ⟨"LD", [.delay, .register x]⟩ => some (.setDelay x)
  | ⟨"LD", [.sound, .register x]⟩ => some (.setSound x)
  | ⟨"ADD", [.index, .register x]⟩ => some (.addIndex x)
  | ⟨"LD", [.decimal, .register x]⟩ => some (.storeDecimal x)
  | ⟨"LD", [.atIndex, .register x]⟩ => some (.storeRegisters x)
  | ⟨"LD", [.register x, .atIndex]⟩ => some (.loadRegisters x)
  | _ => none

theorem ofAssembly?_assembly (instruction : Instruction) :
    ofAssembly? instruction.assembly = some instruction.normalized := by
  cases instruction with
  | combine combination => cases combination <;> rfl
  | skipIfByte x => exact congrArg (some ∘ skipIfByte x) UInt8.ofNat_toNat
  | skipUnlessByte x => exact congrArg (some ∘ skipUnlessByte x) UInt8.ofNat_toNat
  | setByte x => exact congrArg (some ∘ setByte x) UInt8.ofNat_toNat
  | addByte x => exact congrArg (some ∘ addByte x) UInt8.ofNat_toNat
  | random x => exact congrArg (some ∘ random x) UInt8.ofNat_toNat
  | draw x y rows => exact congrArg (some ∘ draw x y) (Register.ofNat_val rows)
  | _ => rfl

theorem normalized_eq_of_mnemonic_eq {first second : Instruction}
    (same : first.mnemonic = second.mnemonic) : first.normalized = second.normalized := by
  have read := congrArg ofAssembly? (assembly_eq_of_mnemonic_eq same)
  rwa [ofAssembly?_assembly, ofAssembly?_assembly, Option.some_inj] at read

theorem normalized_eq_self_or (instruction : Instruction) :
    instruction.normalized = instruction ∨
      ∃ combination x y, combination.isShift ∧ instruction = .combine combination x y := by
  cases instruction with
  | combine combination x y =>
      cases shifts : combination.isShift with
      | true => exact .inr ⟨combination, x, y, shifts, rfl⟩
      | false => exact .inl (by simp [normalized, shifts])
  | _ => exact .inl rfl

/-- The normal form leaves open the register that a shift ignores, and nothing else. -/
theorem eq_or_shifts_of_normalized_eq {first second : Instruction}
    (same : first.normalized = second.normalized) :
    first = second ∨ ∃ combination x y z, combination.isShift ∧
      first = .combine combination x y ∧ second = .combine combination x z := by
  rcases first.normalized_eq_self_or with firstSelf | ⟨combination, x, y, shifts, rfl⟩
  · rcases second.normalized_eq_self_or with secondSelf | ⟨combination, x, y, shifts, rfl⟩
    · exact .inl (by rw [← firstSelf, same, secondSelf])
    · rw [firstSelf, normalized, if_pos shifts] at same
      exact .inr ⟨combination, x, x, y, shifts, same, rfl⟩
  · rw [normalized, if_pos shifts] at same
    cases second with
    | combine other named z =>
        simp only [normalized, combine.injEq] at same
        obtain ⟨rfl, rfl, _⟩ := same
        exact .inr ⟨combination, x, y, z, shifts, rfl, rfl⟩
    | _ => cases same

end Instruction

theorem Combination.apply_of_isShift {combination : Combination} (shifts : combination.isShift)
    (left right other : UInt8) : combination.apply left right = combination.apply left other := by
  cases combination with
  | shiftRight | shiftLeft => rfl
  | _ => cases shifts

theorem Machine.execute_normalized {σ : Type} [CallStack σ] (machine : Machine σ)
    (instruction : Instruction) :
    machine.execute instruction.normalized = machine.execute instruction := by
  rcases instruction.normalized_eq_self_or with same | ⟨combination, x, y, shifts, rfl⟩
  · rw [same]
  · simp only [Instruction.normalized, if_pos shifts, execute, combine]
    rw [Combination.apply_of_isShift shifts]

theorem Word.eq_ofDigits {word : Word} {family : Nat} {x y : Register} {last : Nat}
    (familyEq : word.family.val = family) (xEq : word.x = x) (yEq : word.y = y)
    (lastEq : word.lastDigit.val = last) : word = .ofDigits family x y last := by
  subst familyEq xEq yEq lastEq
  apply UInt16.toNat_inj.mp
  have := word.toNat_lt
  simp only [ofDigits, Word.family, Word.x, Word.y, Word.lastDigit, UInt16.toNat_ofNat']
  omega

/-- Two words that are written alike ask for the same of every machine: they decode to the same
instruction, or to two shifts of one register that differ in the register that a shift ignores. -/
theorem Machine.execute_eq_of_mnemonic_eq {σ : Type} [CallStack σ] {word other : Word}
    {first second : Instruction} (decoded : Instruction.decode? word = some first)
    (decodedOther : Instruction.decode? other = some second)
    (same : first.mnemonic = second.mnemonic) :
    (∀ machine : Machine σ, machine.execute first = machine.execute second) ∧
      (first = second ∨ ∃ combination x y z, combination.isShift ∧
        first = .combine combination x y ∧ word = .ofDigits 0x8 x y combination.digit ∧
        second = .combine combination x z ∧ other = .ofDigits 0x8 x z combination.digit) := by
  have normal := Instruction.normalized_eq_of_mnemonic_eq same
  refine ⟨fun machine => ?_, ?_⟩
  · rw [← machine.execute_normalized first, normal, machine.execute_normalized second]
  · rcases Instruction.eq_or_shifts_of_normalized_eq normal with
      equal | ⟨combination, x, y, z, shifts, rfl, rfl⟩
    · exact .inl equal
    · obtain ⟨family, last, xEq, yEq⟩ := (Instruction.decode?_eq_some_iff _ _).mp decoded
      obtain ⟨familyOther, lastOther, xEqOther, zEq⟩ :=
        (Instruction.decode?_eq_some_iff _ _).mp decodedOther
      exact .inr ⟨combination, x, y, z, shifts, rfl, Word.eq_ofDigits family xEq yEq last, rfl,
        Word.eq_ofDigits familyOther xEqOther zEq lastOther⟩

/-- Two shifts of the register numbered three, which name the registers one and fifteen besides. -/
theorem Machine.execute_eq_of_mnemonic_eq_shifts :
    let x : Register := ⟨3, by decide⟩
    let first : Instruction := .combine .shiftRight x ⟨1, by decide⟩
    let second : Instruction := .combine .shiftRight x .flag
    Instruction.decode? 0x8316 = some first ∧ Instruction.decode? 0x83F6 = some second ∧
      first.mnemonic = second.mnemonic ∧ first ≠ second ∧
      ∀ machine : Machine Slots, machine.execute first = machine.execute second := by
  intro x first second
  have decoded : Instruction.decode? 0x8316 = some first := by decide
  have decodedOther : Instruction.decode? 0x83F6 = some second := by decide
  have same : first.mnemonic = second.mnemonic := rfl
  exact ⟨decoded, decodedOther, same, by decide,
    (execute_eq_of_mnemonic_eq decoded decodedOther same).1⟩

end Chip8
