import Keymap.Location
import Keymap.Text.Capacity
import Keymap.Text.Quoted

/-!
# Syntax errors

What can be wrong with the layers of a source text, and how it is reported. A report has one line
that says where and what, the source line with a caret below the place, and a hint if there is one.

## Key results

- `Cause.excerpt_locate` — the caret stands below the character at the offset
-/

namespace Keymap

/-- What is wrong. -/
inductive Cause where
  /-- No layer begins anywhere in the text: the opener never stands before a parenthesis. -/
  | noInvocation (opener : Text)
  /-- A separator or a closing parenthesis follows no key. -/
  | missingToken
  /-- A parenthesis opens after no name. -/
  | missingName
  /-- A blank inside the name of a call. -/
  | blankInName (name : Text)
  /-- A blank, a comment or a call parts what stands between two separators. -/
  | blankInKey (token : Text)
  /-- The text ends before every parenthesis is closed. -/
  | unclosed
  /-- Calls stand in each other more deeply than is read. -/
  | tooDeep
  /-- A layer has another number of keys than the first one. -/
  | unevenLayers (expected actual layer : Int)
  /-- The layers have another number of keys than the keyboard. -/
  | wrongKeyCount (expected actual : Int)
  /-- Anything else, in its own words. -/
  | stated (message : Text)
  deriving DecidableEq, Repr

namespace Cause

/-- The wording of a cause. -/
def message : Cause → Text
  | .noInvocation opener => "no ".toList ++ opener ++ "( invocations found".toList
  | .missingToken => "missing token".toList
  | .missingName => "function name required".toList
  | .blankInName name => "function name can't have spaces: ".toList ++ name.quoted
  | .blankInKey token => "whitespace is not allowed inside a key: ".toList ++ token.quoted
  | .unclosed => "KEYMAP parenthesis unbalanced".toList
  | .tooDeep => "calls nested too deeply".toList
  | .unevenLayers expected actual layer =>
    "incompatible amount of keys in layers: layer ".toList ++ Text.ofInt layer ++
      " has ".toList ++ Text.ofInt actual ++ ", layer 0 has ".toList ++ Text.ofInt expected
  | .wrongKeyCount expected actual =>
    "number of keys in KEYMAP are incorrect for this layout: ".toList ++ Text.ofInt actual ++
      " expected: ".toList ++ Text.ofInt expected
  | .stated message => message

/-- The advice that goes with a cause, if there is any. -/
def hint? : Cause → Option Text
  | .missingToken => some "every ',' and ')' must follow a key".toList
  | .blankInKey _ => some "separate keys with ','".toList
  | .unclosed => some "add the missing ')'".toList
  | _ => none

end Cause

/-- A cause at an offset, with what is known of its surroundings. -/
structure SyntaxError where
  cause : Cause
  offset : Int
  location : Option Location
  hint : Option Text
  sourceLine : Option Text
  deriving DecidableEq, Repr

/-- A cause at an offset of a text that is not at hand. -/
def Cause.unlocated (cause : Cause) (offset : Int) : SyntaxError :=
  ⟨cause, offset, none, cause.hint?, none⟩

/-- A cause at an offset of the given text. -/
def Cause.locate (cause : Cause) (text : Text) (offset : Int) : SyntaxError :=
  ⟨cause, offset, some (.ofOffset text offset), cause.hint?, some (text.lineAt offset)⟩

namespace SyntaxError

/-- The wording of the cause, without the surroundings. -/
def message (e : SyntaxError) : Text :=
  e.cause.message

/-- The first line of a report. -/
def headline (e : SyntaxError) : Text :=
  match e.location with
  | some location => location.render ++ ": error: ".toList ++ e.message
  | none =>
    "error: ".toList ++ e.message ++ " (at offset ".toList ++ Text.ofInt e.offset ++ ")".toList

/-- How many blanks stand before the caret at a location. -/
def caretMargin (location : Location) : Int :=
  4 + location.column - 1

/-- The source line, four columns in, and below it a caret in the column of the place. -/
def excerpt (e : SyntaxError) : List Text :=
  match e.sourceLine, e.location with
  | some line, some location =>
    ["    ".toList ++ line, List.replicate (caretMargin location).toNat ' ' ++ "^".toList]
  | _, _ => []

/-- Why there is no room for the caret. Without a source line none is needed. -/
def caretFault? [Machine] (e : SyntaxError) : Option CapacityFault :=
  match e.sourceLine, e.location with
  | some _, some location =>
    match checkCount (caretMargin location) with
    | .error fault => some fault
    | .ok _ => none
  | _, _ => none

/-- The last line of a report, if there is something to advise. -/
def advice (e : SyntaxError) : List Text :=
  match e.hint with
  | none | some [] => []
  | some hint => ["hint: ".toList ++ hint]

/-- The lines of a report. -/
def reportLines (e : SyntaxError) : List Text :=
  e.headline :: (e.excerpt ++ e.advice)

/-- The report that is shown for an error. -/
def report (e : SyntaxError) : Text :=
  ['\n'].intercalate e.reportLines

end SyntaxError

/-! ## Where the caret stands -/

/-- The line of an offset is shown whole, and the caret stands below the character at the offset, or
below the place after the last one. -/
theorem Cause.excerpt_locate (cause : Cause) (text : Text) (offset : Int) :
    (cause.locate text offset).excerpt =
      ["    ".toList ++ text.lineAt offset,
        List.replicate (4 + (text.lineBefore (text.nearest offset)).length) ' ' ++ ['^']] := by
  have hcolumn (n : Nat) : (4 + ((n : Int) + 1) - 1).toNat = 4 + n := by omega
  simp [SyntaxError.excerpt, SyntaxError.caretMargin, locate, Location.ofOffset, hcolumn]

end Keymap
