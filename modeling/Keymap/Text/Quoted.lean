import Keymap.Text.Printable

/-!
# Quoted text

How a message shows a piece of text so that its extent and every character in it can be seen: in
single quotes, or in double quotes when that saves escaping, with a backslash escape for the
quote, the backslash and each character that is not printable.

## Key results

- `Text.newline_not_mem_quoted` — a quoted text stays on one line
-/

namespace Keymap

/-- The lower-case hexadecimal digits of a number, with zeros in front up to the given width. -/
def hexDigits (width n : Nat) : Text :=
  let digits := Nat.toDigits 16 n
  List.replicate (width - digits.length) '0' ++ digits

/-- A character by its number, in the shortest of the three forms that can hold it. -/
def escapeByNumber (c : Char) : Text :=
  let n := c.toNat
  if n < 0x100 then '\\' :: 'x' :: hexDigits 2 n
  else if n < 0x10000 then '\\' :: 'u' :: hexDigits 4 n
  else '\\' :: 'U' :: hexDigits 8 n

/-- A character as it stands between the given quotes. -/
def escapeWithin (quote c : Char) : Text :=
  if c = quote ∨ c = '\\' then ['\\', c]
  else if c = '\n' then ['\\', 'n']
  else if c = '\r' then ['\\', 'r']
  else if c = '\t' then ['\\', 't']
  else if isPrintable c then [c]
  else escapeByNumber c

/-! ## Escapes hold no line feed -/

/-- No hexadecimal digit is a line feed. -/
theorem newline_not_mem_toDigits (n : Nat) : '\n' ∉ Nat.toDigits 16 n := by
  induction n using Nat.strongRecOn with
  | ind n ih =>
    have hdigit (d : Nat) (h : d < 16) : '\n' ≠ Nat.digitChar d := by
      revert d
      decide
    rw [Nat.toDigits_eq_if (by decide)]
    split
    · rename_i h
      simp [hdigit n h]
    · rename_i h
      have hlt : n / 16 < n := Nat.div_lt_self (by omega) (by decide)
      simp [ih _ hlt, hdigit (n % 16) (Nat.mod_lt n (by decide))]

/-- Within quotes a line feed never stands for itself. -/
theorem newline_not_mem_escapeWithin {quote : Char} (hquote : '\n' ≠ quote) (c : Char) :
    '\n' ∉ escapeWithin quote c := by
  have hdigits (width n : Nat) : '\n' ∉ hexDigits width n := by
    simp [hexDigits, newline_not_mem_toDigits, List.mem_replicate]
  unfold escapeWithin
  split
  · -- The character is escaped by itself, and it is the quote or a backslash.
    rename_i h
    rcases h with rfl | rfl <;> simp [hquote]
  · split
    · simp
    · rename_i hc
      -- Of the other characters none is a line feed.
      split
      · simp
      · split
        · simp
        · split
          · simpa using Ne.symm hc
          · unfold escapeByNumber
            simp only
            split
            · simp [hdigits]
            · split <;> simp [hdigits]

namespace Text

/-- The quote for a text: double if the text holds single quotes and no double ones. -/
def quoteFor (text : Text) : Char :=
  if text.contains '\'' ∧ ¬ text.contains '"' then '"' else '\''

/-- The text in quotes, escaped. -/
def quoted (text : Text) : Text :=
  let quote := text.quoteFor
  quote :: text.flatMap (escapeWithin quote) ++ [quote]

/-- A text is put into double or single quotes. -/
theorem quoteFor_eq (text : Text) : text.quoteFor = '"' ∨ text.quoteFor = '\'' := by
  unfold quoteFor
  split <;> simp

/-- A quoted text stays on one line. -/
theorem newline_not_mem_quoted (text : Text) : '\n' ∉ text.quoted := by
  have hquote : '\n' ≠ text.quoteFor := by
    rcases quoteFor_eq text with h | h <;> rw [h] <;> decide
  simp only [quoted, List.cons_append, List.mem_cons, List.mem_append, List.mem_flatMap,
    List.not_mem_nil, or_false, hquote, false_or, not_exists, not_and]
  exact fun c _ => newline_not_mem_escapeWithin hquote c

end Text

end Keymap
