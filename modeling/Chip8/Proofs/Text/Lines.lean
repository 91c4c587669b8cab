import Mathlib.Data.List.Basic

/-!
# Lines of text

A text that ends each of its lines with a line feed is split into them again. A text of characters
from the blank on, which leaves out the line feed, makes one line of it.
-/

namespace Chip8

/-- The lines that are ended by a line feed each, without it. -/
def lines (text : String) : List (List Char) :=
  (text.toList.splitOn '\n').dropLast

/-- The character of a text at a column of a line, both counted from zero. -/
def charAt? (text : String) (column line : Nat) : Option Char :=
  (lines text)[line]?.bind fun characters => characters[column]?

/-- Nothing follows the last line feed. -/
def EndsLines (text : String) : Prop :=
  text.toList = (lines text).flatMap fun line => line ++ ['\n']

/-- A line and the line feed that ends it. -/
def IsLine (text : String) : Prop :=
  ∃ characters, text.toList = characters ++ ['\n'] ∧ '\n' ∉ characters

/-- No character stands before the blank, as the line feed does. -/
def Printable (text : String) : Prop :=
  ∀ char ∈ text.toList, ' ' ≤ char

instance (text : String) : Decidable (Printable text) :=
  List.decidableBAll _ _

theorem Printable.append {first second : String} (printable : Printable first)
    (printableOther : Printable second) : Printable (first ++ second) := by
  rw [Printable, String.toList_append]
  exact List.forall_mem_append.mpr ⟨printable, printableOther⟩

theorem Printable.isLine {text : String} (printable : Printable text) : IsLine (text ++ "\n") :=
  ⟨text.toList, String.toList_append, fun listed => absurd (printable _ listed) (by decide)⟩

theorem lines_append {line : String} (single : IsLine line) (text : String) :
    lines (line ++ text) = line.toList.dropLast :: lines text := by
  obtain ⟨characters, ended, free⟩ := single
  have front : (line ++ text).toList = characters ++ '\n' :: text.toList := by
    rw [String.toList_append, ended, List.append_assoc]
    rfl
  rw [lines, front, List.splitOn_append_cons_self_of_not_mem free,
    List.dropLast_cons_of_ne_nil (List.splitOn_ne_nil _ _), ended, List.dropLast_concat]
  rfl

theorem lines_join {texts : List String} (single : ∀ text ∈ texts, IsLine text) :
    lines (String.join texts) = texts.map fun text => text.toList.dropLast := by
  induction texts with
  | nil => rfl
  | cons text rest ih =>
      have here := single text List.mem_cons_self
      have later := ih fun other listed => single other (List.mem_cons_of_mem _ listed)
      rw [String.join_cons, lines_append here, later, List.map_cons]

theorem endsLines_join {texts : List String} (single : ∀ text ∈ texts, IsLine text) :
    EndsLines (String.join texts) := by
  rw [EndsLines, lines_join single, String.toList_join, List.flatMap_map]
  refine List.flatMap_congr fun text listed => ?_
  obtain ⟨characters, ended, _⟩ := single text listed
  rw [ended, List.dropLast_concat]

end Chip8
