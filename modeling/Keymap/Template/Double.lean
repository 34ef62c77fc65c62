import Keymap.Text.Basic

/-!
# Whole numbers as doubles

Some presentations show a whole number as a double: the nearest number of 53 binary digits and a
power of two. A double that comes from a whole number is one itself, so all of its digits are known,
and only those that a precision leaves out are rounded. Rounding goes to the nearest number, and of
two equally near ones to the even one.
-/

namespace Keymap

/-- A quotient rounded to a whole number. -/
def roundedDiv (n divisor : Nat) : Nat :=
  let quotient := n / divisor
  let twice := 2 * (n % divisor)
  if twice < divisor ∨ twice = divisor ∧ quotient % 2 = 0 then quotient else quotient + 1

/-- How many binary digits a double holds. -/
def doubleDigits : Nat := 53

/-- All doubles are less than this one would be. -/
def doubleBound : Nat := Nat.pow 2 1024

/-- The double that is nearest to a number, unless the number is too large. -/
def toDouble? (n : Nat) : Option Nat :=
  let step := Nat.pow 2 (n.log2 + 1 - doubleDigits)
  let double := roundedDiv n step * step
  if double < doubleBound then some double else none

/-- The first digits of a number, rounded, and the power of ten that the first of them stands for.
There is at least one digit, and zeros stand for those that the number does not have. -/
def leadingDigits (count n : Nat) : Text × Nat :=
  let digits := Nat.toDigits 10 n
  if digits.length ≤ count then
    (digits ++ List.replicate (count - digits.length) '0', digits.length - 1)
  else
    let rounded := Nat.toDigits 10 (roundedDiv n (Nat.pow 10 (digits.length - count)))
    -- Rounding up may lead to one more digit, which is a zero.
    (rounded.take count, digits.length - 1 + (rounded.length - count))

/-- How a double is shown. -/
inductive DoubleForm where
  /-- With all digits before the point. -/
  | fixed
  /-- With one digit before the point, and a power of ten. -/
  | scientific
  /-- In the shorter of these ways, with no more digits than the precision says. -/
  | general
  deriving DecidableEq, Repr

/-- The digits behind the point, if there is one. -/
def pointText (alternate : Bool) (digits : Text) : Text :=
  if digits.isEmpty && !alternate then [] else '.' :: digits

/-- A power of ten, with at least two digits. -/
def exponentText (exponent : Nat) : Text :=
  let digits := Nat.toDigits 10 exponent
  "e+".toList ++ List.replicate (2 - digits.length) '0' ++ digits

/-- The digits of a double before the point, and what follows them. The alternate form keeps a point
with nothing behind it, and the zeros of the general form. -/
def DoubleForm.show (precision : Nat) (alternate : Bool) (n : Nat) : DoubleForm → Text × Text
  | .fixed => (Nat.toDigits 10 n, pointText alternate (List.replicate precision '0'))
  | .scientific =>
    let (digits, exponent) := leadingDigits (precision + 1) n
    (digits.take 1, pointText alternate (digits.drop 1) ++ exponentText exponent)
  | .general =>
    let count := max 1 precision
    let (digits, exponent) := leadingDigits count n
    let before := if exponent < count then exponent + 1 else 1
    let behind := digits.drop before
    let kept := if alternate then behind else (behind.reverse.dropWhile (· == '0')).reverse
    (digits.take before,
      pointText alternate kept ++ if exponent < count then [] else exponentText exponent)

end Keymap
