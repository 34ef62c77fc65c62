import Keymap.Text.Decimal
import Keymap.Text.Quoted

/-!
# Values

The data that the functions of a symbol table take and give, and that may stand where a syntax
tree is expected: absent, truth values, integers, decimal numbers, texts, lists and records.
-/

namespace Keymap

/-- Things that messages can mention. -/
class Spelled (α : Type) where
  /-- The way a thing is written in a message. -/
  spell : α → Text

export Spelled (spell)

instance : Spelled Nat := ⟨Text.ofNat⟩
instance : Spelled Int := ⟨Text.ofInt⟩
instance : Spelled Empty := ⟨nofun⟩

/-- A decimal number: its sign, its digits, and how many of them stand after the point. A number of
places below zero stands for zeros before the point. Zero has a sign, too. -/
structure Decimal where
  negative : Bool
  digits : Nat
  places : Int
  deriving DecidableEq, Repr

/-- A datum. -/
inductive Value where
  | absent
  | flag (value : Bool)
  | integer (value : Int)
  | decimal (value : Decimal)
  | text (value : Text)
  | list (items : List Value)
  | record (fields : List (Text × Value))
  deriving Inhabited

namespace Decimal

/-- The significant digits of a nonzero number and the power of ten of the first one. -/
def scientific (x : Decimal) : Text × Int :=
  let all := Text.ofNat x.digits
  ((all.reverse.dropWhile (· == '0')).reverse, (all.length : Int) - 1 - x.places)

/-- Significant digits with a point in front of the first one, among them, or after zeros. -/
def positional (significant : Text) (power : Int) : Text :=
  if power < 0 then
    "0.".toList ++ List.replicate (-power - 1).toNat '0' ++ significant
  else
    let width := power.toNat + 1
    let fraction := significant.drop width
    significant.take width ++ List.replicate (width - significant.length) '0' ++ ['.'] ++
      if fraction.isEmpty then ['0'] else fraction

/-- Significant digits with a point after the first one, and a power of ten in at least two
digits. -/
def exponential (significant : Text) (power : Int) : Text :=
  let mantissa :=
    if significant.length ≤ 1 then significant
    else significant.take 1 ++ ['.'] ++ significant.drop 1
  let exponent := Text.ofNat power.natAbs
  mantissa ++ (if power < 0 then "e-".toList else "e+".toList) ++
    List.replicate (2 - exponent.length) '0' ++ exponent

/-- A number without its sign. A power of ten is written where there would be more than three zeros
after the point or more than sixteen digits before it. -/
def magnitude (x : Decimal) : Text :=
  if x.digits = 0 then "0.0".toList
  else
    let (significant, power) := x.scientific
    if -4 ≤ power ∧ power < 16 then positional significant power
    else exponential significant power

/-- A number with a decimal point or a power of ten. -/
def spelling (x : Decimal) : Text :=
  (if x.negative then ['-'] else []) ++ x.magnitude

end Decimal

instance : Spelled Decimal := ⟨Decimal.spelling⟩

namespace Value

/-- Whether a datum says nothing: it is absent, false, zero or empty. -/
def isVoid : Value → Bool
  | .absent => true
  | .flag value => !value
  | .integer value => value == 0
  | .decimal value => value.digits == 0
  | .text value => value.isEmpty
  | .list items => items.isEmpty
  | .record fields => fields.isEmpty

/-! ## Spelling -/

mutual

/-- The way a datum is written in a message. -/
def spelling : Value → Text
  | .absent => "None".toList
  | .flag true => "True".toList
  | .flag false => "False".toList
  | .integer value => Text.ofInt value
  | .decimal value => value.spelling
  | .text value => value.quoted
  | .list items => ['['] ++ ", ".toList.intercalate (spellings items) ++ [']']
  | .record fields => ['\x7b'] ++ ", ".toList.intercalate (entries fields) ++ ['\x7d']

/-- The ways the items of a list are written. -/
def spellings : List Value → List Text
  | [] => []
  | item :: rest => spelling item :: spellings rest

/-- The ways the fields of a record are written. -/
def entries : List (Text × Value) → List Text
  | [] => []
  | (key, value) :: rest => (key.quoted ++ ": ".toList ++ spelling value) :: entries rest

end

instance : Spelled Value := ⟨spelling⟩

/-- The text that a datum is, if it is one. -/
def text? : Value → Option Text
  | .text value => some value
  | _ => none

end Value

end Keymap
