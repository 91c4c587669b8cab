/-!
# Words and images

A program is a list of sixteen-bit words. Memory and files hold it as an image, two bytes a word
with the high byte first; an image of odd length is read as if a zero byte followed it. The fields
of a word are its four hexadecimal digits and their runs: the family, the registers `x` and `y`,
the last digit, the low byte and the twelve-bit address. One digit names one of sixteen registers.
-/

namespace Chip8

abbrev Word := UInt16

abbrev Register := Fin 16

abbrev Address := Fin 0x1000

abbrev Image := List UInt8

abbrev Program := List Word

namespace Register

theorem mod_lt (number : Nat) : number % 16 < 16 :=
  Nat.mod_lt number (by decide)

/-- Registers are counted modulo sixteen. -/
def ofNat (number : Nat) : Register :=
  ⟨number % 16, mod_lt number⟩

def first : Register := ofNat 0

/-- The register for carries, differences, dropped bits and collisions. -/
def flag : Register := ofNat 15

end Register

namespace Word

def family (word : Word) : Fin 16 :=
  ⟨word.toNat / 0x1000, by have := word.toNat_lt; omega⟩

def x (word : Word) : Register :=
  ⟨word.toNat / 0x100 % 0x10, Nat.mod_lt _ (by decide)⟩

def y (word : Word) : Register :=
  ⟨word.toNat / 0x10 % 0x10, Nat.mod_lt _ (by decide)⟩

def lastDigit (word : Word) : Fin 16 :=
  ⟨word.toNat % 0x10, Nat.mod_lt _ (by decide)⟩

def lowByte (word : Word) : UInt8 :=
  word.toUInt8

def highByte (word : Word) : UInt8 :=
  UInt8.ofNat (word.toNat / 0x100)

def address (word : Word) : Address :=
  ⟨word.toNat % 0x1000, Nat.mod_lt _ (by decide)⟩

def ofBytes (high low : UInt8) : Word :=
  UInt16.ofNat (high.toNat * 0x100 + low.toNat)

@[simp]
theorem toNat_ofBytes (high low : UInt8) :
    (ofBytes high low).toNat = high.toNat * 0x100 + low.toNat := by
  have := high.toNat_lt
  have := low.toNat_lt
  simp only [ofBytes, UInt16.toNat_ofNat']
  omega

@[simp]
theorem ofBytes_highByte_lowByte (word : Word) :
    ofBytes word.highByte word.lowByte = word := by
  apply UInt16.toNat_inj.mp
  have := word.toNat_lt
  simp only [toNat_ofBytes, highByte, lowByte, UInt8.toNat_ofNat', UInt16.toNat_toUInt8]
  omega

@[simp]
theorem highByte_ofBytes (high low : UInt8) : (ofBytes high low).highByte = high := by
  apply UInt8.toNat_inj.mp
  have := high.toNat_lt
  have := low.toNat_lt
  simp only [highByte, toNat_ofBytes, UInt8.toNat_ofNat']
  omega

@[simp]
theorem lowByte_ofBytes (high low : UInt8) : (ofBytes high low).lowByte = low := by
  apply UInt8.toNat_inj.mp
  have := high.toNat_lt
  have := low.toNat_lt
  simp only [lowByte, UInt16.toNat_toUInt8, toNat_ofBytes]
  omega

end Word

def Image.words : Image → Program
  | high :: low :: rest => Word.ofBytes high low :: Image.words rest
  | [high] => [Word.ofBytes high 0]
  | [] => []

def Program.image (program : Program) : Image :=
  program.flatMap fun word => [word.highByte, word.lowByte]

@[simp]
theorem Program.words_image (program : Program) : program.image.words = program := by
  induction program with
  | nil => rfl
  | cons word rest ih =>
      have rest_words : Image.words (List.flatMap
          (fun word : Word => [word.highByte, word.lowByte]) rest) = rest := ih
      simp [Program.image, Image.words, rest_words]

@[simp]
theorem Program.length_image (program : Program) : program.image.length = 2 * program.length := by
  induction program with
  | nil => rfl
  | cons word rest ih =>
      simp only [Program.image, List.flatMap_cons, List.length_append, List.length_cons,
        List.length_nil] at ih ⊢
      omega

@[simp]
theorem Image.length_words (image : Image) : image.words.length = (image.length + 1) / 2 := by
  fun_induction Image.words image with
  | case1 high low rest ih =>
      simp only [List.length_cons, ih]
      omega
  | case2 high => simp
  | case3 => rfl

end Chip8
