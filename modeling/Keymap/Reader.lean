import Keymap.Layer.Descent
import Keymap.Outline

/-!
# Readers

A reader reads the same text repeatedly. It remembers what the reading before has left, even if that
stopped at a fault in the middle of nested calls: its cursor, from which it goes on, and the count
and the stack of the parentheses that were open.
-/

namespace Keymap

/-- A text, what is expected of it, and the cursor that was left in it, with its count and its stack
of open parentheses. -/
structure Reader extends Descent.Cursor where
  text : Text
  keyCount : Option Int
  opener : Text
  deriving DecidableEq

/-- What one pass of a reader gives: the outline or the error, and the reader from there on. There
is no error to be told if the last element of an empty list was asked for. -/
structure Pass where
  outcome : Except (Option SyntaxError) Outline
  reader : Reader

namespace Reader

/-- A reader of a text from its beginning. -/
def ofText (text : Text) (keyCount : Option Int) (opener : Text) : Reader :=
  ⟨⟨0, 0, []⟩, text, keyCount, opener⟩

variable [Machine]

/-- Read from the cursor on. -/
def read (r : Reader) : Pass :=
  let layers := Descent.layers r.opener r.text r.toCursor
  let locate (fault : Fault) : SyntaxError := fault.cause.locate r.text fault.offset
  { outcome :=
      match layers.stopped with
      | some failure => .error (failure.map fun failure => locate failure.fault)
      | none =>
        (Sweep.outline ⟨layers.found, none⟩ r.opener r.keyCount).mapError fun fault =>
          some (locate fault)
    reader := { r with toCursor := layers.cursor } }

/-- What each of a number of readings gives. -/
def readTimes (r : Reader) : Nat → List Pass
  | 0 => []
  | times + 1 => r.read :: r.read.reader.readTimes times

end Reader

end Keymap
