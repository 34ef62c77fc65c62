import Keymap.Text.Capacity
import Keymap.Text.Quoted

/-!
# Faults of patterns

What can be wrong with a pattern that is to be filled in: its braces, the names in its fields, or
the way a field asks for its value to be shown. How a pattern is filled in is the concern of a
renderer, which is given to everything that writes a label.
-/

namespace Keymap

/-- What a field shows: the number itself, or the text that a conversion made of it. -/
inductive Subject where
  | number
  | text
  deriving DecidableEq, Repr

/-- The name of a subject's type in messages. -/
def Subject.name : Subject → Text
  | .number => "int".toList
  | .text => "str".toList

/-- What is wrong with a pattern. -/
inductive PatternFault where
  /-- An opening brace ends the pattern. -/
  | loneOpen
  /-- A closing brace closes nothing. -/
  | loneClose
  /-- An opening brace inside the name of a field. -/
  | braceInName
  /-- The pattern ends inside the name of a field. -/
  | unclosedField
  /-- The pattern ends where a conversion is due. -/
  | missingConversion
  /-- Something other than a format follows a conversion. -/
  | missingColon
  /-- The pattern ends inside the format of a field. -/
  | unclosedFormat
  /-- Formats stand in each other more deeply than is read. -/
  | nestedFormats
  /-- A field names no value that there is. -/
  | unknownName (name : Text)
  /-- A field asks for a value by its position. -/
  | position (number : Nat)
  /-- A dot or a bracket in a name with nothing to look up. -/
  | emptyPart
  /-- A part looked up by name in a number that has none of that name. -/
  | noPart (name : Text)
  /-- A part looked up by index in a number. -/
  | noItem
  /-- A conversion that there is not. -/
  | unknownConversion (letter : Char)
  /-- A number that is too large for a width, a precision or a position. -/
  | tooManyDigits
  /-- Both characters for grouping digits. -/
  | twoSeparators
  /-- Digits cannot be grouped by the character in this presentation. -/
  | separatorFor (separator letter : Char)
  /-- A point without a precision. -/
  | missingPrecision
  /-- A format with something left after it. -/
  | invalidFormat (format : Text) (subject : Subject)
  /-- A presentation that there is not. -/
  | unknownPresentation (letter : Char) (subject : Subject)
  /-- A precision for a whole number. -/
  | precisionOfNumber
  /-- A rule for negative zeros where there are none. -/
  | negativeZero (subject : Subject)
  /-- A blank for the sign of a text. -/
  | spaceForText
  /-- A sign for a text. -/
  | signForText
  /-- An alternate form of a text. -/
  | alternateText
  /-- Padding between the sign and the digits of a text. -/
  | alignmentOfText
  /-- A sign for a number that is shown as a character. -/
  | signForCharacter
  /-- An alternate form of a character. -/
  | alternateCharacter
  /-- A number that does not fit into a machine word, shown as a character. -/
  | tooLargeForCharacter
  /-- A number that no character has. -/
  | noCharacter
  /-- A number that no double is near to. -/
  | tooLargeForDouble
  /-- A precision that no double is shown with. -/
  | tooPrecise
  /-- A field that is too wide. -/
  | tooWide (fault : CapacityFault)
  /-- Anything else, in words. -/
  | other (words : Text)
  deriving DecidableEq, Repr

namespace PatternFault

/-- A letter of a format as it is shown in a message. -/
def shownLetter (limit : Nat) (letter : Char) : Text :=
  if 32 < letter.toNat ∧ letter.toNat < limit then [letter]
  else "\\x".toList ++ hexDigits 0 letter.toNat

/-- The wording of a fault. -/
def message : PatternFault → Text
  | .loneOpen => "Single '\x7b' encountered in format string".toList
  | .loneClose => "Single '\x7d' encountered in format string".toList
  | .braceInName => "unexpected '\x7b' in field name".toList
  | .unclosedField => "expected '\x7d' before end of string".toList
  | .missingConversion => "end of string while looking for conversion specifier".toList
  | .missingColon => "expected ':' after conversion specifier".toList
  | .unclosedFormat => "unmatched '\x7b' in format spec".toList
  | .nestedFormats => "Max string recursion exceeded".toList
  | .unknownName name => name.quoted
  | .position number =>
    "Replacement index ".toList ++ Nat.toDigits 10 number ++
      " out of range for positional args tuple".toList
  | .emptyPart => "Empty attribute in format string".toList
  | .noPart name => "'int' object has no attribute ".toList ++ name.quoted
  | .noItem => "'int' object is not subscriptable".toList
  | .unknownConversion letter =>
    "Unknown conversion specifier ".toList ++ shownLetter 127 letter
  | .tooManyDigits => "Too many decimal digits in format string".toList
  | .twoSeparators => "Cannot specify both ',' and '_'.".toList
  | .separatorFor separator letter =>
    "Cannot specify '".toList ++ [separator] ++ "' with '".toList ++ shownLetter 128 letter ++
      "'.".toList
  | .missingPrecision => "Format specifier missing precision".toList
  | .invalidFormat format subject =>
    "Invalid format specifier '".toList ++ format ++ "' for object of type '".toList ++
      subject.name ++ "'".toList
  | .unknownPresentation letter subject =>
    "Unknown format code '".toList ++ shownLetter 128 letter ++ "' for object of type '".toList ++
      subject.name ++ "'".toList
  | .precisionOfNumber => "Precision not allowed in integer format specifier".toList
  | .negativeZero .number =>
    "Negative zero coercion (z) not allowed in integer format specifier".toList
  | .negativeZero .text =>
    "Negative zero coercion (z) not allowed in string format specifier".toList
  | .spaceForText => "Space not allowed in string format specifier".toList
  | .signForText => "Sign not allowed in string format specifier".toList
  | .alternateText => "Alternate form (#) not allowed in string format specifier".toList
  | .alignmentOfText => "'=' alignment not allowed in string format specifier".toList
  | .signForCharacter => "Sign not allowed with integer format specifier 'c'".toList
  | .alternateCharacter =>
    "Alternate form (#) not allowed with integer format specifier 'c'".toList
  | .tooLargeForCharacter => "Python int too large to convert to C long".toList
  | .noCharacter => "%c arg not in range(0x110000)".toList
  | .tooLargeForDouble => "int too large to convert to float".toList
  | .tooPrecise => "precision too big".toList
  | .tooWide fault => fault.message
  | .other words => words

end PatternFault

/-- How a number is filled into a pattern. -/
abbrev Renderer := Int → Text → Except PatternFault Text

end Keymap
