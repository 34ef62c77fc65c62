import Keymap.Text.Basic

/-!
# Blank characters

The characters that separate tokens without being part of one: the white space of the Unicode
standard together with the four information separators U+001C to U+001F. Zero-width characters
are not blank.

## Key results

- `Text.trim_eq` — a text is its margin, its trimmed part and blanks
-/

namespace Keymap

/-- Whether a character is blank. -/
def isBlank (c : Char) : Bool :=
  let n := c.toNat
  (0x09 ≤ n && n ≤ 0x0D) || (0x1C ≤ n && n ≤ 0x20) || n == 0x85 || n == 0xA0 || n == 0x1680 ||
    (0x2000 ≤ n && n ≤ 0x200A) || n == 0x2028 || n == 0x2029 || n == 0x202F || n == 0x205F ||
    n == 0x3000

namespace Text

/-- How many blanks the text begins with. -/
def margin (text : Text) : Nat :=
  (text.takeWhile isBlank).length

/-- The text without the blanks at its end. -/
def trimRight (text : Text) : Text :=
  (text.reverse.dropWhile isBlank).reverse

/-- The text without the blanks at its beginning and end. -/
def trim (text : Text) : Text :=
  trimRight (text.dropWhile isBlank)

/-- Whether the text holds a blank. -/
def hasBlank (text : Text) : Bool :=
  text.any isBlank

/-! ## What trimming keeps -/

/-- What is taken off the end of a text is blank. -/
theorem trimRight_eq (text : Text) :
    ∃ blanks : Text, text = trimRight text ++ blanks ∧ ∀ c ∈ blanks, isBlank c := by
  refine ⟨(text.reverse.takeWhile isBlank).reverse, ?_, ?_⟩
  · rw [trimRight, ← List.reverse_append, List.takeWhile_append_dropWhile, List.reverse_reverse]
  · intro c hc
    exact List.all_eq_true.mp List.all_takeWhile c (List.mem_reverse.mp hc)

/-- A text is its margin, its trimmed part and blanks. -/
theorem trim_eq (text : Text) :
    ∃ blanks : Text, text = text.take text.margin ++ trim text ++ blanks ∧
      ∀ c ∈ blanks, isBlank c := by
  obtain ⟨blanks, heq, hblank⟩ := trimRight_eq (text.dropWhile isBlank)
  refine ⟨blanks, ?_, hblank⟩
  have htake : text.take text.margin = text.takeWhile isBlank :=
    (List.prefix_iff_eq_take.mp (List.takeWhile_prefix isBlank)).symm
  rw [htake, List.append_assoc, trim, ← heq, List.takeWhile_append_dropWhile]

end Text

end Keymap
