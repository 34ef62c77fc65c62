import Keymap.Text.Decimal

/-!
# Locations

A location names a place in a text by its offset and by the line and column that an editor shows.
Lines and columns count from one, and a line ends only at a line feed.

## Key results

- `Text.newline_not_mem_lineAt` — a line holds no line feed
-/

namespace Keymap

/-- A place in a text. -/
structure Location where
  offset : Int
  line : Int
  column : Int
  deriving DecidableEq, Repr

namespace Text

/-- The part of the line at a place that lies before the place. -/
def lineBefore (text : Text) (place : Nat) : Text :=
  ((text.take place).reverse.takeWhile (· ≠ '\n')).reverse

/-- The part of the line at a place from the place on. -/
def lineAfter (text : Text) (place : Nat) : Text :=
  (text.drop place).takeWhile (· ≠ '\n')

/-- The whole line that an offset lies on, without its line feed. An offset outside the text stands
for the nearest end of it. -/
def lineAt (text : Text) (offset : Int) : Text :=
  text.lineBefore (text.nearest offset) ++ text.lineAfter (text.nearest offset)

/-- What stands on a line before a place holds no line feed. -/
theorem newline_not_mem_lineBefore (text : Text) (place : Nat) : '\n' ∉ text.lineBefore place := by
  intro h
  simpa using List.all_eq_true.mp List.all_takeWhile _ (List.mem_reverse.mp h)

/-- What stands on a line from a place on holds no line feed. -/
theorem newline_not_mem_lineAfter (text : Text) (place : Nat) : '\n' ∉ text.lineAfter place := by
  intro h
  simpa using List.all_eq_true.mp List.all_takeWhile _ h

/-- A line holds no line feed. -/
theorem newline_not_mem_lineAt (text : Text) (offset : Int) : '\n' ∉ text.lineAt offset := by
  rw [lineAt, List.mem_append, not_or]
  exact ⟨text.newline_not_mem_lineBefore _, text.newline_not_mem_lineAfter _⟩

end Text

namespace Location

/-- The location of an offset in a text. An offset outside the text stands for the nearest end of
it. -/
def ofOffset (text : Text) (offset : Int) : Location :=
  let place := text.nearest offset
  { offset := place
    line := (text.take place).count '\n' + 1
    column := (text.lineBefore place).length + 1 }

/-- Line and column with a colon between them. -/
def render (location : Location) : Text :=
  Text.ofInt location.line ++ ":".toList ++ Text.ofInt location.column

end Location

end Keymap
