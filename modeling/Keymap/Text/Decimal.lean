import Keymap.Text.Blank

/-!
# Decimal numerals

How numbers are written in messages and how they are read from options and settings. Numbers are
written in ASCII digits without leading zeros. A number is read from digits of any script, with
single low lines between digits, one optional sign, and blanks around the whole.

## Key results

- `Text.isDigit_of_mem_ofNat` — natural numbers are written in ASCII digits
-/

namespace Keymap

/-! ## Writing -/

/-- The decimal digits of a natural number. -/
def Text.ofNat (n : Nat) : Text :=
  Nat.toDigits 10 n

/-- The decimal digits of an integer, after `-` if it is negative. -/
def Text.ofInt : Int → Text
  | .ofNat n => Text.ofNat n
  | .negSucc n => '-' :: Text.ofNat (n + 1)

/-- Natural numbers are written in ASCII digits. -/
theorem Text.isDigit_of_mem_ofNat {n : Nat} {c : Char} (h : c ∈ Text.ofNat n) : c.isDigit :=
  Nat.isDigit_of_mem_toDigits (by decide) (by decide) h

/-! ## Reading -/

/-- The zeros of the decimal digit systems of version 14 of the Unicode character database, in
ascending order. The digits one to nine follow each zero. -/
def digitZeros : List Nat :=
  [0x30, 0x660, 0x6F0, 0x7C0, 0x966, 0x9E6, 0xA66, 0xAE6, 0xB66, 0xBE6, 0xC66, 0xCE6, 0xD66, 0xDE6,
   0xE50, 0xED0, 0xF20, 0x1040, 0x1090, 0x17E0, 0x1810, 0x1946, 0x19D0, 0x1A80, 0x1A90, 0x1B50,
   0x1BB0, 0x1C40, 0x1C50, 0xA620, 0xA8D0, 0xA900, 0xA9D0, 0xA9F0, 0xAA50, 0xABF0, 0xFF10, 0x104A0,
   0x10D30, 0x11066, 0x110F0, 0x11136, 0x111D0, 0x112F0, 0x11450, 0x114D0, 0x11650, 0x116C0,
   0x11730, 0x118E0, 0x11950, 0x11C50, 0x11D50, 0x11DA0, 0x16A60, 0x16AC0, 0x16B50, 0x1D7CE,
   0x1D7D8, 0x1D7E2, 0x1D7EC, 0x1D7F6, 0x1E140, 0x1E2F0, 0x1E950, 0x1FBF0]

/-- The number that a decimal digit of any script stands for. -/
def digitValue? (c : Char) : Option Nat :=
  (digitZeros.find? fun base => base ≤ c.toNat && c.toNat < base + 10).map (c.toNat - ·)

/-- A numeral of more digits than this is not read. -/
def maxDigits : Nat := 4300

namespace Text

/-- The digits of a numeral, without the single low lines that may stand between them. -/
def digits? : Text → Option (List Nat)
  | [] => none
  | [c] => (digitValue? c).map fun n => [n]
  | c :: '_' :: rest => do return (← digitValue? c) :: (← digits? rest)
  | c :: d :: rest => do return (← digitValue? c) :: (← digits? (d :: rest))

/-- The natural number that an unsigned numeral stands for. -/
def toNat? (numeral : Text) : Option Nat := do
  let digits ← digits? numeral
  if digits.length ≤ maxDigits then
    return digits.foldl (fun value digit => value * 10 + digit) 0
  else
    none

/-- Whether a character may stand around a numeral. The information separators may not. -/
def isNumeralMargin (c : Char) : Bool :=
  isBlank c && !(0x1C ≤ c.toNat && c.toNat ≤ 0x1F)

/-- The integer that a numeral stands for. -/
def toInt? (numeral : Text) : Option Int :=
  let bare := ((numeral.dropWhile isNumeralMargin).reverse.dropWhile isNumeralMargin).reverse
  match bare with
  | '-' :: rest => (toNat? rest).map fun n => -(n : Int)
  | '+' :: rest => (toNat? rest).map fun n => (n : Int)
  | rest => (toNat? rest).map fun n => (n : Int)

end Text

end Keymap
