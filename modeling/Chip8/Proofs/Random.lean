import Chip8.Random.Source

/-!
# Places in the keystream

A source stands at a place of a key's keystream when the words that it keeps are those from that
place to the end of their block, and the block that it computes next is the one after. It starts at
place zero, and each byte that it hands out is the one of its place and moves it on by one.
-/

namespace Chip8.Random

theorem offset_lt (place : Nat) : place % 16 < 16 :=
  Nat.mod_lt place (by decide)

def wordAt (key : CipherKey) (place : Nat) : UInt32 :=
  (block key (UInt64.ofNat (place / 16))).get ⟨place % 16, offset_lt place⟩

theorem wordAt_of_lt (key : CipherKey) (blocks : Nat) {offset : Nat} (inside : offset < 16) :
    wordAt key (16 * blocks + offset) = (block key (UInt64.ofNat blocks))[offset] := by
  have quotient : (16 * blocks + offset) / 16 = blocks := by omega
  have remainder : (16 * blocks + offset) % 16 = offset := by omega
  simp only [wordAt, quotient, remainder]
  rfl

namespace Source

structure StandsAt (source : Source) (key : CipherKey) (place : Nat) : Prop where
  key_eq : source.key = key
  nextBlock_eq : ∃ blocks, place + source.unused.length = 16 * blocks ∧
    source.nextBlock = UInt64.ofNat blocks
  unused_eq : ∀ offset word, source.unused[offset]? = some word →
    word = wordAt key (place + offset)

theorem standsAt_ofKey (key : CipherKey) : (ofKey key).StandsAt key 0 where
  key_eq := rfl
  nextBlock_eq := ⟨0, rfl, rfl⟩
  unused_eq _ _ listed := by cases listed

variable {source : Source} {key : CipherKey} {place : Nat}

theorem StandsAt.next_of_cons (stands : source.StandsAt key place) {word : UInt32}
    {rest : List UInt32} (kept : source.unused = word :: rest) :
    source.next.1 = byteAt key place ∧ source.next.2.StandsAt key (place + 1) := by
  obtain ⟨key_eq, ⟨blocks, whole, nextBlock⟩, unused_eq⟩ := stands
  rw [kept] at unused_eq
  rw [kept, List.length_cons, Nat.add_comm rest.length, ← Nat.add_assoc] at whole
  simp only [Source.next, kept]
  refine ⟨congrArg UInt32.toUInt8 (unused_eq 0 word rfl), key_eq,
    ⟨blocks, whole, nextBlock⟩, fun offset other listed => ?_⟩
  rw [unused_eq (offset + 1) other listed, Nat.add_right_comm, Nat.add_assoc]

/-- With no word left the place is the first of a block. -/
theorem StandsAt.next_of_nil (stands : source.StandsAt key place) (kept : source.unused = []) :
    source.next.1 = byteAt key place ∧ source.next.2.StandsAt key (place + 1) := by
  obtain ⟨rfl, ⟨blocks, whole, nextBlock⟩, _⟩ := stands
  have first : place = 16 * blocks := by simpa [kept] using whole
  subst first
  simp only [Source.next, kept, nextBlock]
  refine ⟨congrArg UInt32.toUInt8 (wordAt_of_lt source.key blocks (by decide)).symm, rfl,
    ⟨blocks + 1, ?_, ?_⟩, ?_⟩
  · rw [List.length_tail, Vector.length_toList]
    omega
  · exact (UInt64.ofNat_add blocks 1).symm
  · intro offset other listed
    rw [List.getElem?_tail] at listed
    obtain ⟨inside, rfl⟩ := List.getElem?_eq_some_iff.mp listed
    rw [Vector.length_toList] at inside
    rw [Nat.add_assoc, Nat.add_comm 1, wordAt_of_lt source.key blocks inside]
    rfl

theorem StandsAt.next (stands : source.StandsAt key place) :
    source.next.1 = byteAt key place ∧ source.next.2.StandsAt key (place + 1) := by
  cases kept : source.unused with
  | nil => exact stands.next_of_nil kept
  | cons word rest => exact stands.next_of_cons kept

end Source

end Chip8.Random
