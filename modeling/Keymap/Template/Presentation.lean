import Keymap.Template.Double
import Keymap.Template.Fault
import Keymap.Text.Decimal

/-!
# Presentations

How the value of a field is shown. A format says, in this order and each part optional: a fill
character and an alignment, a sign, a rule for negative zeros, the alternate form, zero padding, a
width, a separator of digits, a precision, and a letter for the presentation. A number is shown in
base two, eight, ten or sixteen, as a double, or as the character that it is the number of.
-/

namespace Keymap

/-- Where a value stands in its field. -/
inductive Alignment where
  | left
  | right
  | center
  /-- At both ends: the sign to the left, the digits to the right. -/
  | spread
  deriving DecidableEq, Repr

/-- The alignment that a character asks for. -/
def Alignment.ofChar? : Char → Option Alignment
  | '<' => some .left
  | '>' => some .right
  | '^' => some .center
  | '=' => some .spread
  | _ => none

/-- What a format asks for. -/
structure Presentation where
  fill : Char
  alignment : Alignment
  sign : Option Char
  plainZero : Bool
  alternate : Bool
  width : Nat
  separator : Option Char
  precision : Option Nat
  letter : Char
  deriving DecidableEq, Repr

/-! ## Reading a format -/

/-- The largest width, precision or position. -/
def maxCount : Nat := 0x7fffffffffffffff

/-- The number that a text begins with, if it begins with one, and the text after it. -/
def readCount (text : Text) : Except PatternFault (Option Nat × Text) :=
  let digits := (text.takeWhile fun c => (digitValue? c).isSome).filterMap digitValue?
  let value := digits.foldl (fun value digit => value * 10 + digit) 0
  if maxCount < value then .error .tooManyDigits
  else .ok (if digits.isEmpty then none else some value, text.drop digits.length)

/-- Take a character off a text that begins with one that passes the test. -/
def takeIf (test : Char → Bool) : Text → Option Char × Text
  | [] => (none, [])
  | c :: rest => if test c then (some c, rest) else (none, c :: rest)

/-- The fill character and the alignment that a format begins with. -/
def readAlignment : Text → Option Char × Option Alignment × Text
  | c :: d :: rest =>
    match Alignment.ofChar? d with
    | some alignment => (some c, some alignment, rest)
    | none =>
      match Alignment.ofChar? c with
      | some alignment => (none, some alignment, d :: rest)
      | none => (none, none, c :: d :: rest)
  | [c] =>
    match Alignment.ofChar? c with
    | some alignment => (none, some alignment, [])
    | none => (none, none, [c])
  | [] => (none, none, [])

/-- The separator of digits that a text begins with. -/
def readSeparator : Text → Except PatternFault (Option Char × Text)
  | ',' :: '_' :: _ | '_' :: ',' :: _ => .error .twoSeparators
  | ',' :: rest => .ok (some ',', rest)
  | '_' :: rest => .ok (some '_', rest)
  | text => .ok (none, text)

/-- The precision that a text begins with. -/
def readPrecision : Text → Except PatternFault (Option Nat × Text)
  | '.' :: rest => do
    match ← readCount rest with
    | (some precision, rest) => return (some precision, rest)
    | (none, _) => throw .missingPrecision
  | text => .ok (none, text)

/-- The character that stands for no letter where a letter is due. -/
def noLetter : Char := '\x00'

/-- Whether digits can be grouped by a separator in a presentation, as far as its letter says. -/
def admitsSeparator (separator letter : Char) : Bool :=
  letter == noLetter || "defgEG%F".toList.contains letter ||
    separator == '_' && "boxX".toList.contains letter

namespace Presentation

/-- Read a format for a subject. A number stands at the right end of its field and is shown in base
ten unless the format asks otherwise, a text at the left end. -/
def read (subject : Subject) (format : Text) : Except PatternFault Presentation := do
  let standard := match subject with
    | .number => Alignment.right
    | .text => Alignment.left
  let (fill, alignment, text) := readAlignment format
  let (sign, text) := takeIf (fun c => c == '+' || c == '-' || c == ' ') text
  let (plainZero, text) := takeIf (· == 'z') text
  let (alternate, text) := takeIf (· == '#') text
  -- With a fill character of its own a format has no zero padding, and a zero belongs to the width.
  let (zero, text) := takeIf (fun c => fill.isNone && c == '0') text
  let (width, text) ← readCount text
  let (separator, text) ← readSeparator text
  let (precision, text) ← readPrecision text
  let letter ← match text with
    | [] => pure (match subject with | .number => 'd' | .text => 's')
    | [letter] => pure letter
    | _ => throw (.invalidFormat format subject)
  if let some separator := separator then
    if !admitsSeparator separator letter then throw (.separatorFor separator letter)
  return {
    fill := fill.getD (zero.getD ' ')
    alignment := alignment.getD
      (if zero.isSome && standard == .right then .spread else standard)
    sign, plainZero := plainZero.isSome, alternate := alternate.isSome, width := width.getD 0,
    separator, precision, letter }

end Presentation

/-! ## Showing a value -/

variable [Machine]

/-- A field may only be as wide as there is room. -/
def Presentation.checkWidth (p : Presentation) : Except PatternFault Unit :=
  match checkCount p.width with
  | .ok _ => .ok ()
  | .error fault => .error (.tooWide fault)

/-- Put a value into a field. What goes before the padding of a spread field is `head`. -/
def pad (p : Presentation) (head body : Text) : Text :=
  let missing := p.width - (head.length + body.length)
  let fill (n : Nat) : Text := List.replicate n p.fill
  match p.alignment with
  | .left => head ++ body ++ fill missing
  | .right => fill missing ++ head ++ body
  | .center => fill (missing / 2) ++ head ++ body ++ fill (missing - missing / 2)
  | .spread => head ++ fill missing ++ body

/-- The digits with a separator before every group of `size`, counted from the end. -/
def grouped (size : Nat) (separator : Char) : Text → Text
  | [] => []
  | [c] => [c]
  | c :: d :: rest =>
    if (rest.length + 1) % size = 0 then c :: separator :: grouped size separator (d :: rest)
    else c :: grouped size separator (d :: rest)

/-- The sign that is written before a number. -/
def signText (p : Presentation) (n : Int) : Text :=
  if n < 0 then ['-']
  else match p.sign with
    | some '+' => ['+']
    | some ' ' => [' ']
    | _ => []

/-- Digits filled up with zeros to a least number of characters, with a separator before every group
of `size`. A separator never comes first, and nothing is put before no digits. -/
def digitsText (separator : Option Char) (size least : Nat) (digits : Text) : Text :=
  let zeros (count : Nat) : Text := List.replicate (count - digits.length) '0' ++ digits
  if digits.isEmpty then []
  else match separator with
    | none => zeros least
    | some separator =>
      -- Separators count, too: of `size + 1` characters one is a separator.
      grouped size separator (zeros (least - (least - 1) / (size + 1)))

/-- A number in its field: what comes before its digits, the digits, which are grouped by `size`,
and what comes after them. Zeros between sign and digits are digits, and are grouped with them. -/
def numberText (p : Presentation) (size : Nat) (head digits tail : Text) : Text :=
  let least :=
    if p.fill = '0' ∧ p.alignment = .spread then p.width - (head.length + tail.length) else 0
  pad p head (digitsText p.separator size least digits ++ tail)

/-! ## Whole numbers -/

/-- The base that a letter asks for, and the mark that the alternate form puts before it. -/
def base? : Char → Option (Nat × Text)
  | 'd' | 'n' => some (10, [])
  | 'b' => some (2, "0b".toList)
  | 'o' => some (8, "0o".toList)
  | 'x' => some (16, "0x".toList)
  | 'X' => some (16, "0X".toList)
  | _ => none

/-- Whole numbers have neither a precision nor a negative zero. -/
def Presentation.checkWhole (p : Presentation) : Except PatternFault Unit := do
  if p.precision.isSome then throw .precisionOfNumber
  if p.plainZero then throw (.negativeZero .number)

/-- A number in a base. Digits are grouped by three in base ten, otherwise by four. -/
def presentWhole (p : Presentation) (base : Nat) (mark : Text) (n : Int) :
    Except PatternFault Text := do
  p.checkWhole
  p.checkWidth
  let head := signText p n ++ if p.alternate then mark else []
  let digits := Nat.toDigits base n.natAbs
  return numberText p (if base = 10 then 3 else 4) head
    (if p.letter = 'X' then digits.map Char.toUpper else digits) []

/-! ## Characters -/

/-- The character of a number. Surrogates are the numbers of none. -/
def character (n : Int) : Except PatternFault Char :=
  if n < -wordBound ∨ wordBound ≤ n then .error .tooLargeForCharacter
  else if h : 0 ≤ n ∧ n.toNat.isValidChar then .ok (Char.ofNatAux n.toNat h.2)
  else .error .noCharacter

/-- A number as the character that it is the number of. -/
def presentCharacter (p : Presentation) (n : Int) : Except PatternFault Text := do
  p.checkWhole
  if p.sign.isSome then throw .signForCharacter
  if p.alternate then throw .alternateCharacter
  let c ← character n
  p.checkWidth
  return numberText p 3 [] [] [c]

/-! ## Doubles -/

/-- How a letter asks for a double to be shown. -/
def doubleForm? (letter : Char) : Option DoubleForm :=
  match letter.toLower with
  | 'e' => some .scientific
  | 'f' | '%' => some .fixed
  | 'g' => some .general
  | _ => none

/-- The largest precision of a double. -/
def maxPrecision : Nat := 0x7fffffff

/-- The precision of a double unless a format says otherwise. -/
def usualPrecision : Nat := 6

/-- A number as a double. A percentage is a hundred times the number, which may be more than any
double. -/
def presentDouble (p : Presentation) (form : DoubleForm) (n : Int) :
    Except PatternFault Text := do
  let some double := toDouble? n.natAbs | throw .tooLargeForDouble
  let precision := p.precision.getD usualPrecision
  if maxPrecision < precision then throw .tooPrecise
  p.checkWidth
  let shown := form.show precision p.alternate
  let (digits, tail) :=
    if p.letter = '%' then
      match toDouble? (100 * double) with
      | some double => ((shown double).1, (shown double).2 ++ ['%'])
      | none => ([], "inf%".toList)
    else shown double
  return numberText p 3 (signText p n) digits
    (if p.letter.isUpper then tail.map Char.toUpper else tail)

/-! ## Numbers and texts -/

/-- A number as a format asks for it. -/
def presentNumber (n : Int) (format : Text) : Except PatternFault Text :=
  if format.isEmpty then .ok (Text.ofInt n)
  else do
    let p ← Presentation.read .number format
    match base? p.letter, doubleForm? p.letter with
    | some (base, mark), _ => presentWhole p base mark n
    | none, some form => presentDouble p form n
    | none, none =>
      if p.letter = 'c' then presentCharacter p n
      else throw (.unknownPresentation p.letter .number)

/-- A text as a format asks for it. -/
def presentText (text format : Text) : Except PatternFault Text :=
  if format.isEmpty then .ok text
  else do
    let p ← Presentation.read .text format
    if p.letter ≠ 's' then throw (.unknownPresentation p.letter .text)
    if p.sign = some ' ' then throw .spaceForText
    if p.sign.isSome then throw .signForText
    if p.plainZero then throw (.negativeZero .text)
    if p.alternate then throw .alternateText
    if p.alignment = .spread then throw .alignmentOfText
    p.checkWidth
    return pad p [] (match p.precision with
      | some precision => text.take precision
      | none => text)

end Keymap
