import Keymap.Template.Presentation

/-!
# Patterns

A pattern is a text with fields in braces that a number is filled into. Doubled braces stand for
single ones. A field gives the name of the number, a conversion of it to text, and a format, which
may hold fields itself. Pieces are filled in from left to right, so of several faults the leftmost
is reported.
-/

namespace Keymap

/-- A piece of a pattern. -/
inductive Piece where
  | literal (c : Char)
  | field (name : Text) (conversion : Option Char) (format : Text)
  deriving DecidableEq, Repr

/-- The pieces of a pattern up to the first fault in its braces, and that fault. -/
structure Pattern where
  pieces : List Piece
  fault : Option PatternFault
  deriving DecidableEq, Repr

namespace Pattern

/-! ## Reading a pattern -/

/-- What the characters of a pattern that have been read leave open. -/
inductive State where
  /-- Nothing. -/
  | plain
  /-- A brace that opens a field unless it is doubled. -/
  | opened
  /-- A brace that must be doubled. -/
  | closed
  /-- The name of a field, and whether it goes on up to a closing bracket. -/
  | name (read : Text) (bracket : Bool)
  /-- The conversion after a name. -/
  | conversion (name : Text)
  /-- The format after a conversion, if there is one. -/
  | converted (name : Text) (conversion : Option Char)
  /-- A format in which a number of braces are open. -/
  | format (name : Text) (conversion : Option Char) (read : Text) (depth : Nat)
  deriving DecidableEq, Repr

/-- The fault of a pattern that ends in a state. -/
def State.atEnd : State → Option PatternFault
  | .plain => none
  | .opened => some .loneOpen
  | .closed => some .loneClose
  | .name .. => some .unclosedField
  | .conversion .. => some .missingConversion
  | .converted .. | .format .. => some .unclosedFormat

/-- Go on with the name of a field. Inside brackets nothing ends a name. -/
def stepName (read : Text) (bracket : Bool) (c : Char) :
    Except PatternFault (Option Piece × State) :=
  if bracket then .ok (none, .name (read ++ [c]) (c != ']'))
  else match c with
    | '{' => .error .braceInName
    | '}' => .ok (some (.field read none []), .plain)
    | ':' => .ok (none, .format read none [] 0)
    | '!' => .ok (none, .conversion read)
    | _ => .ok (none, .name (read ++ [c]) (c == '['))

/-- The piece that a character completes, if it does, and the state it leads to. -/
def State.step (s : State) (c : Char) : Except PatternFault (Option Piece × State) :=
  match s, c with
  | .plain, '{' => .ok (none, .opened)
  | .plain, '}' => .ok (none, .closed)
  | .plain, c => .ok (some (.literal c), .plain)
  | .opened, '{' => .ok (some (.literal '{'), .plain)
  | .opened, c => stepName [] false c
  | .closed, '}' => .ok (some (.literal '}'), .plain)
  | .closed, _ => .error .loneClose
  | .name read bracket, c => stepName read bracket c
  | .conversion field, c =>
    .ok (none, .converted field (if c = noLetter then none else some c))
  | .converted field letter, '}' => .ok (some (.field field letter []), .plain)
  | .converted field letter, ':' => .ok (none, .format field letter [] 0)
  | .converted .., _ => .error .missingColon
  | .format field letter read 0, '}' => .ok (some (.field field letter read), .plain)
  | .format field letter read (depth + 1), '}' =>
    .ok (none, .format field letter (read ++ ['}']) depth)
  | .format field letter read depth, '{' =>
    .ok (none, .format field letter (read ++ ['{']) (depth + 1))
  | .format field letter read depth, c =>
    .ok (none, .format field letter (read ++ [c]) depth)

/-- Read the rest of a pattern from a state on. -/
def readFrom (s : State) : Text → Pattern
  | [] => ⟨[], s.atEnd⟩
  | c :: rest =>
    match s.step c with
    | .error fault => ⟨[], some fault⟩
    | .ok (piece, s) =>
      let later := readFrom s rest
      ⟨piece.toList ++ later.pieces, later.fault⟩

/-- The pattern that a text is. -/
def ofText (text : Text) : Pattern :=
  readFrom .plain text

end Pattern

/-! ## Filling in a pattern -/

/-- The name by which a pattern refers to its number. -/
def numberName : Text := "index".toList

/-- Whether a character ends the first part of a name. -/
def endsPart (c : Char) : Bool :=
  c == '.' || c == '['

/-- What can be done with a number, by name. -/
def methodNames : List Text :=
  ["as_integer_ratio", "bit_count", "bit_length", "conjugate", "from_bytes", "to_bytes"].map
    String.toList

/-- Whether a name belongs to what a number is made of rather than to what it says: a method, or
something between double underscores. Such a part is shown differently on different machines. -/
def isInternal (name : Text) : Bool :=
  methodNames.contains name || "__".toList.isPrefixOf name && "__".toList.isSuffixOf name

/-- A part of a number that is looked up by its name. -/
def partOf (n : Int) (name : Text) : Except PatternFault Int :=
  if name.isEmpty then .error .emptyPart
  else if name = "real".toList ∨ name = "numerator".toList then .ok n
  else if name = "imag".toList then .ok 0
  else if name = "denominator".toList then .ok 1
  else if isInternal name then .error (.other ("cannot show ".toList ++ name.quoted))
  else .error (.noPart name)

/-- The value that the name of a field leads to: the number, or a part of a part of it. -/
def valueOf (n : Int) (name : Text) : Except PatternFault Int := do
  let first := name.takeWhile (!endsPart ·)
  let (count, tail) ← readCount first
  -- No name at all stands for the first value by position, of which there are none.
  if first.isEmpty then throw (.position 0)
  if tail.isEmpty then
    if let some number := count then throw (.position number)
  if first ≠ numberName then throw (.unknownName first)
  let parts := name.drop first.length
  let part ← ((parts.takeWhile (· ≠ '[')).splitOn '.').tail.foldlM partOf n
  -- Nothing can be looked up by index.
  match parts.dropWhile (· ≠ '[') with
  | _ :: rest => if (rest.takeWhile (· ≠ ']')).isEmpty then throw .emptyPart else throw .noItem
  | [] => return part

variable [Machine]

/-- A piece with the number filled in. The fields of its format are filled in by `fillFormat`. -/
def Piece.fill (n : Int) (fillFormat : Text → Except PatternFault Text) :
    Piece → Except PatternFault Text
  | .literal c => .ok [c]
  | .field name conversion format => do
    let value ← valueOf n name
    if let some letter := conversion then
      if !"rsa".toList.contains letter then throw (.unknownConversion letter)
    let format ← if format.contains '{' then fillFormat format else pure format
    if conversion.isSome then presentText (Text.ofInt value) format
    else presentNumber value format

/-- A text with the number filled in. Formats are filled in up to a depth. -/
def fillTo (n : Int) : Nat → Text → Except PatternFault Text
  | 0, _ => .error .nestedFormats
  | depth + 1, text => do
    let pattern := Pattern.ofText text
    -- A fault among the pieces comes before the one that ends the pattern.
    let shown ← pattern.pieces.mapM (Piece.fill n (fillTo n depth))
    match pattern.fault with
    | some fault => throw fault
    | none => return shown.flatten

/-- A text with the number filled in. The format of a field may hold fields, but theirs may not. -/
def fill : Renderer :=
  fun n text => fillTo n 2 text

end Keymap
