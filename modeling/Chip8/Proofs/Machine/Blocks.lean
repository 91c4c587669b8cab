import Chip8.Proofs.Machine.Execution
import Chip8.Proofs.Machine.Run
import Chip8.Proofs.Memory

/-!
# Blocks of memory at the index

Three instructions move a block between memory at the index and the registers: the first registers
are stored or loaded, or the decimal digits of one register are stored. Each changes the block on
one side alone, and leaves the index, so what was stored is what a later load finds there, and to
store what was just loaded or stored changes nothing.
-/

namespace Chip8

/-- Three digits spell a byte. -/
structure SpellsDecimal (hundreds tens units byte : UInt8) : Prop where
  hundreds_lt : hundreds.toNat < 10
  tens_lt : tens.toNat < 10
  units_lt : units.toNat < 10
  value_eq : 100 * hundreds.toNat + 10 * tens.toNat + units.toNat = byte.toNat

theorem spellsDecimal (byte : UInt8) :
    SpellsDecimal (byte / 100) (byte / 10 % 10) (byte % 10) byte := by
  have hundreds : (byte / 100).toNat = byte.toNat / 100 := UInt8.toNat_div _ _
  have tens : (byte / 10 % 10).toNat = byte.toNat / 10 % 10 := by
    rw [UInt8.toNat_mod, UInt8.toNat_div]
    rfl
  have units : (byte % 10).toNat = byte.toNat % 10 := UInt8.toNat_mod _ _
  have := byte.toNat_lt
  constructor <;> omega

namespace Machine

variable {σ : Type}

theorem getElem?_registers (registers : Vector UInt8 16) (place : Register) :
    registers[place.val]? = some (registers.get place) :=
  Vector.getElem?_eq_getElem place.isLt

theorem getElem?_registersThrough (machine : Machine σ) {x place : Register} (listed : place ≤ x) :
    (machine.registersThrough x)[place.val]? = some (machine.registers.get place) := by
  rw [registersThrough, List.getElem?_take_of_lt (Nat.lt_succ_of_le listed),
    Vector.getElem?_toList, getElem?_registers]

/-- The machine has gone on, and of the rest only so many bytes at the index may have changed. -/
structure StoresWithin (machine : Machine σ) (length : Nat) (after : Machine σ) : Prop where
  machine_eq : after = { machine with
    counter := machine.counter + 2
    memory := after.memory }
  rest_eq : ∀ address,
    address < machine.index.toNat ∨ machine.index.toNat + length ≤ address →
      after.memory[address]? = machine.memory[address]?

/-- The first registers are stored at the index. -/
structure StoresRegisters (machine : Machine σ) (x : Register) (after : Machine σ) : Prop
    extends machine.StoresWithin (x + 1) after where
  block_eq : ∀ place ≤ x,
    after.memory[machine.index.toNat + place.val]? = some (machine.registers.get place)

/-- The digits of a register are stored at the index. -/
structure StoresDecimal (machine : Machine σ) (x : Register) (after : Machine σ) : Prop
    extends machine.StoresWithin 3 after where
  block_eq : ∃ hundreds tens units,
    SpellsDecimal hundreds tens units (machine.registers.get x) ∧
      after.memory[machine.index.toNat]? = some hundreds ∧
      after.memory[machine.index.toNat + 1]? = some tens ∧
      after.memory[machine.index.toNat + 2]? = some units

/-- The machine has gone on with its first registers loaded from the index. -/
structure LoadsRegisters (machine : Machine σ) (x : Register) (after : Machine σ) : Prop where
  machine_eq : after = { machine with
    counter := machine.counter + 2
    registers := after.registers }
  block_eq : ∀ place ≤ x,
    machine.memory[machine.index.toNat + place.val]? = some (after.registers.get place)
  rest_eq : ∀ place, x < place → after.registers.get place = machine.registers.get place

theorem exists_store {machine : Machine σ} {bytes : List UInt8} {length : Nat}
    (sized : bytes.length = length) (fits : machine.index.toNat + length ≤ 0x1000) :
    ∃ after, machine.store bytes = .running after ∧ machine.StoresWithin length after ∧
      ∀ offset byte, bytes[offset]? = some byte →
        after.memory[machine.index.toNat + offset]? = some byte := by
  subst sized
  refine ⟨_, store_of_le fits, ⟨rfl, fun address outside => ?_⟩, fun offset byte listed => ?_⟩
  · exact getElem?_overwrite_of_outside _ _ outside
  · have within := (List.getElem?_eq_some_iff.mp listed).1
    exact getElem?_overwrite_of_inside _ listed (by omega)

section

variable [CallStack σ] {machine : Machine σ} {x : Register}

theorem execute_storeRegisters (fits : machine.index.toNat + (x + 1) ≤ 0x1000) :
    ∃ after, machine.execute (.storeRegisters x) = .running after ∧
      machine.StoresRegisters x after := by
  obtain ⟨after, stored, within, block⟩ := exists_store (machine.length_registersThrough x) fits
  exact ⟨after, stored, within, fun _ listed =>
    block _ _ (machine.getElem?_registersThrough listed)⟩

theorem execute_storeDecimal (fits : machine.index.toNat + 3 ≤ 0x1000) :
    ∃ after, machine.execute (.storeDecimal x) = .running after ∧
      machine.StoresDecimal x after := by
  have sized : (decimalDigits (machine.registers.get x)).length = 3 := rfl
  obtain ⟨after, stored, within, block⟩ := exists_store sized fits
  exact ⟨after, stored, within, _, _, _, spellsDecimal _, block 0 _ rfl, block 1 _ rfl,
    block 2 _ rfl⟩

theorem execute_loadRegisters (fits : machine.index.toNat + (x + 1) ≤ 0x1000) :
    ∃ after, machine.execute (.loadRegisters x) = .running after ∧
      machine.LoadsRegisters x after := by
  obtain ⟨bytes, read, listed⟩ := machine.memory.exists_read fits
  have executed : machine.execute (.loadRegisters x) = .running { machine with
      registers := overwrite machine.registers 0 bytes.toList }.advance := by
    simp only [execute, read]
  have length : bytes.toList.length = x + 1 := Vector.length_toList
  refine ⟨_, executed, rfl, fun place below => ?_, fun place above => ?_⟩
  · have within : place.val < x + 1 := Nat.lt_succ_of_le below
    obtain ⟨byte, there⟩ : ∃ byte, bytes.toList[place.val]? = some byte :=
      ⟨_, List.getElem?_eq_getElem (by rw [length]; exact within)⟩
    have loaded : (overwrite machine.registers 0 bytes.toList)[0 + place.val]? = some byte :=
      getElem?_overwrite_of_inside _ there (by omega)
    rw [Nat.zero_add, getElem?_registers] at loaded
    rw [← listed place within, there]
    exact loaded.symm
  · have beyond : 0 + bytes.toList.length ≤ place := by
      rw [length, Nat.zero_add]
      exact above
    exact getElem_overwrite_of_outside _ _ place.isLt (.inr beyond)

end

section

variable {machine after : Machine σ} {x : Register}

theorem LoadsRegisters.memory_eq (loads : machine.LoadsRegisters x after) :
    after.memory = machine.memory :=
  congrArg (·.memory) loads.machine_eq

theorem LoadsRegisters.index_eq (loads : machine.LoadsRegisters x after) :
    after.index = machine.index :=
  congrArg (·.index) loads.machine_eq

theorem StoresRegisters.registers_eq (stores : machine.StoresRegisters x after) :
    after.registers = machine.registers :=
  congrArg (·.registers) stores.machine_eq

theorem StoresRegisters.index_eq (stores : machine.StoresRegisters x after) :
    after.index = machine.index :=
  congrArg (·.index) stores.machine_eq

theorem StoresRegisters.restored {later loaded : Machine σ}
    (stores : machine.StoresRegisters x after) (memoryKept : later.memory = after.memory)
    (indexKept : later.index = after.index) (loads : later.LoadsRegisters x loaded)
    {place : Register} (listed : place ≤ x) :
    loaded.registers.get place = machine.registers.get place := by
  have found := loads.block_eq place listed
  rw [memoryKept, indexKept, stores.index_eq, stores.block_eq place listed] at found
  exact (Option.some.inj found).symm

/-- Storing what memory already holds changes nothing. -/
theorem StoresRegisters.memory_eq_of_held (stores : machine.StoresRegisters x after)
    (held : ∀ place ≤ x, machine.memory[machine.index.toNat + place.val]? =
      some (machine.registers.get place)) : after.memory = machine.memory := by
  refine Vector.ext fun address inside => Option.some.inj ?_
  rw [← Vector.getElem?_eq_getElem inside, ← Vector.getElem?_eq_getElem inside]
  by_cases within : machine.index.toNat ≤ address ∧ address ≤ machine.index.toNat + x
  · obtain ⟨offset, rfl⟩ := Nat.exists_eq_add_of_le within.1
    have listed : offset ≤ x := Nat.le_of_add_le_add_left within.2
    obtain ⟨place, rfl⟩ : ∃ place : Register, place.val = offset :=
      ⟨⟨offset, Nat.lt_of_le_of_lt listed x.isLt⟩, rfl⟩
    rw [stores.block_eq place listed, held place listed]
  · exact stores.rest_eq address (by omega)

theorem LoadsRegisters.memory_eq_of_stored {stored : Machine σ}
    (loads : machine.LoadsRegisters x after) (stores : after.StoresRegisters x stored) :
    stored.memory = machine.memory := by
  refine (stores.memory_eq_of_held fun place listed => ?_).trans loads.memory_eq
  rw [loads.memory_eq, loads.index_eq]
  exact loads.block_eq place listed

theorem StoresRegisters.eq_advance_of_stored {stored : Machine σ}
    (stores : machine.StoresRegisters x after) (again : after.StoresRegisters x stored) :
    stored = after.advance := by
  have memoryKept : stored.memory = after.memory := by
    refine again.memory_eq_of_held fun place listed => ?_
    rw [stores.index_eq, stores.registers_eq]
    exact stores.block_eq place listed
  have written := again.machine_eq
  rw [memoryKept] at written
  exact written

end

/-- As long as the block fits in memory: stores and loads move it and leave the rest; a load gives
back what was stored, whatever the registers hold by then; to store what was loaded from the same
place leaves memory as it was; and to store twice is to store once. -/
theorem blocks_round_trip [CallStack σ] (machine : Machine σ) (x : Register) :
    (machine.index.toNat + (x + 1) ≤ 0x1000 →
      ∃ stored loaded : Machine σ,
        (machine.execute (.storeRegisters x) = .running stored ∧
          machine.StoresRegisters x stored) ∧
        (machine.execute (.loadRegisters x) = .running loaded ∧
          machine.LoadsRegisters x loaded) ∧
        (∀ later : Machine σ, later.memory = stored.memory → later.index = stored.index →
          ∃ restored, later.execute (.loadRegisters x) = .running restored ∧
            later.LoadsRegisters x restored ∧
            ∀ place ≤ x, restored.registers.get place = machine.registers.get place) ∧
        (∃ after, loaded.execute (.storeRegisters x) = .running after ∧
          after.memory = machine.memory) ∧
        stored.execute (.storeRegisters x) = .running stored.advance) ∧
    (machine.index.toNat + 3 ≤ 0x1000 →
      ∃ stored, machine.execute (.storeDecimal x) = .running stored ∧
        machine.StoresDecimal x stored) := by
  refine ⟨fun fits => ?_, execute_storeDecimal⟩
  obtain ⟨stored, storing, stores⟩ := execute_storeRegisters fits
  obtain ⟨loaded, loading, loads⟩ := execute_loadRegisters fits
  refine ⟨stored, loaded, ⟨storing, stores⟩, ⟨loading, loads⟩, ?_, ?_, ?_⟩
  · intro later memoryKept indexKept
    have fitsLater : later.index.toNat + (x + 1) ≤ 0x1000 := by
      rw [indexKept, stores.index_eq]
      exact fits
    obtain ⟨restored, restoring, restores⟩ := execute_loadRegisters fitsLater
    exact ⟨restored, restoring, restores,
      fun place listed => stores.restored memoryKept indexKept restores listed⟩
  · have fitsLoaded : loaded.index.toNat + (x + 1) ≤ 0x1000 := by
      rw [loads.index_eq]
      exact fits
    obtain ⟨after, writing, writes⟩ := execute_storeRegisters fitsLoaded
    exact ⟨after, writing, loads.memory_eq_of_stored writes⟩
  · have fitsStored : stored.index.toNat + (x + 1) ≤ 0x1000 := by
      rw [stores.index_eq]
      exact fits
    obtain ⟨after, writing, writes⟩ := execute_storeRegisters fitsStored
    rw [writing, stores.eq_advance_of_stored writes]

/-- Three registers in the last three bytes of memory, loaded again after all registers were
overwritten; and in the same place the digits of one of them. -/
theorem blocks_round_trip_at_end :
    let blank : Machine Slots := powerOn {} (Vector.replicate 8 0)
    let machine := blank.performAll [.load [0x6007, 0x61C8, 0x62FF, 0xAFFD], .run 4]
    let x : Register := ⟨2, by decide⟩
    machine.index.toNat + (x + 1) = 0x1000 ∧
    (∃ stored restored, machine.execute (.storeRegisters x) = .running stored ∧
      stored.memory[0xFFF]? = some 255 ∧
      { stored with registers := Vector.replicate 16 9 }.execute (.loadRegisters x) =
        .running restored ∧
      restored.registers.get ⟨1, by decide⟩ = 200 ∧ restored.registers.get ⟨3, by decide⟩ = 9) ∧
    ∃ stored, machine.execute (.storeDecimal x) = .running stored ∧
      stored.memory[0xFFD]? = some 2 := by
  intro blank machine x
  obtain ⟨index, second, third⟩ : machine.index.toNat = 0xFFD ∧
      machine.registers.get ⟨1, by decide⟩ = 200 ∧ machine.registers.get x = 255 := by
    decide +kernel
  have full : machine.index.toNat + (x + 1) = 0x1000 := congrArg (· + 3) index
  obtain ⟨blocks, decimal⟩ := blocks_round_trip machine x
  obtain ⟨stored, _, ⟨storing, stores⟩, _, restores, _⟩ := blocks (Nat.le_of_eq full)
  obtain ⟨restored, restoring, loads, restoredTo⟩ :=
    restores { stored with registers := Vector.replicate 16 9 } rfl rfl
  obtain ⟨spelled, spelling, spells⟩ := decimal (Nat.le_of_eq full)
  obtain ⟨hundreds, tens, units, digits, found, _⟩ := spells.block_eq
  have stored255 := stores.block_eq x (Nat.le_refl x)
  have total := digits.value_eq
  have tens_lt := digits.tens_lt
  have units_lt := digits.units_lt
  rw [third] at stored255 total
  obtain rfl : hundreds = 2 := by
    refine UInt8.toNat_inj.mp (show hundreds.toNat = 2 from ?_)
    have byte : (255 : UInt8).toNat = 255 := rfl
    omega
  rw [index] at stored255 found
  exact ⟨full, ⟨stored, restored, storing, stored255, restoring,
    (restoredTo ⟨1, by decide⟩ (by decide)).trans second,
    loads.rest_eq ⟨3, by decide⟩ (by decide)⟩, spelled, spelling, found⟩

end Machine

end Chip8
