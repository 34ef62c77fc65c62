import Keymap.Machine
import Keymap.Node.Basic
import Keymap.SyntaxError

/-!
# Scanning a layer

Between the parentheses of a layer stand arguments, separated by commas. An argument is one token:
a word, or a call with arguments of its own. Blanks, comments and continued lines may stand
between tokens. A machine reads one character at a time; its state holds the argument lists that
are open, the place where the next token may begin, and what the last character may turn out to be
the first half of. Reading ends with the parenthesis that closes the layer, at the first fault, or
with the text.

## Key results

- `State.scan_cons` — scanning goes on with the state that the next character leads to
- `State.scan_rest_length_lt` — what is left of a text after a layer is shorter than the text
- `State.scan_error_append` — a fault stays as it is, whatever comes after it, unless it is a
  missing parenthesis
-/

namespace Keymap

/-! ## Faults -/

/-- A cause and the offset that it is reported at. -/
structure Fault where
  cause : Cause
  offset : Nat
  deriving DecidableEq, Repr

/-- A fault that ended reading, and the offset that reading had come to. -/
structure Failure where
  fault : Fault
  cursor : Nat
  deriving DecidableEq, Repr

/-! ## States -/

/-- What the machine is in the middle of. -/
inductive Mode where
  /-- Nothing but code. -/
  | code
  /-- The last character is a slash, which may begin a comment. -/
  | slash
  /-- The last character is a backslash, which may continue the line. -/
  | backslash
  /-- A block comment. -/
  | block
  /-- A block comment, of which the last character is a star. -/
  | star
  /-- A line comment. -/
  | line
  deriving DecidableEq, Repr

/-- An argument list that is open: the offset of its parenthesis, the arguments before the last
separator, latest first, and the argument since then. -/
structure Frame where
  paren : Nat
  done : List Key
  slot : Option Key
  deriving DecidableEq

/-- The name of a call whose argument list is open, and its offset. -/
structure Head where
  offset : Nat
  name : Text
  deriving DecidableEq

/-- A state of the machine. `seen` is the text since the layer's parenthesis, latest character
first, and `pos` the offset after it. The characters from `start` on belong to no token yet. The
innermost open argument list is `frame`; `outer` holds the calls around it, each with the argument
list that it stands in. -/
structure State where
  mode : Mode
  pos : Nat
  start : Nat
  seen : List Char
  frame : Frame
  outer : List (Head × Frame)
  deriving DecidableEq

/-- An argument list of which nothing has been read. -/
def Frame.empty (paren : Nat) : Frame :=
  ⟨paren, [], none⟩

/-- The arguments of a list that ends with the given one. -/
def Frame.keysWith (frame : Frame) (last : Key) : List Key :=
  (last :: frame.done).reverse

variable [Machine]

namespace State

/-- The state after the parenthesis that opens a layer. -/
def initial (paren : Nat) : State :=
  ⟨.code, paren + 1, paren + 1, [], .empty paren, []⟩

/-- The text between two offsets that have been read. -/
def between (s : State) (start stop : Nat) : Text :=
  ((s.seen.drop (s.pos - stop)).take (stop - start)).reverse

/-- The state in another mode. -/
def into (s : State) (mode : Mode) : State :=
  { s with mode }

/-- The state in which the next token begins right here. -/
def fresh (s : State) (mode : Mode) (frame : Frame) : State :=
  { s with mode, frame, start := s.pos }

/-! ## Filling argument slots -/

/-- Put an argument into the open slot. A slot has room for one. -/
def fill (s : State) (frame : Frame) (key : Key) : Except Fault Frame :=
  match frame.slot with
  | none => .ok { frame with slot := some key }
  | some previous =>
    .error ⟨.blankInKey (s.between previous.offset key.stop), key.offset⟩

/-- Make the text from `start` up to `stop` an argument, unless it is blank. -/
def flush (s : State) (stop : Nat) : Except Fault Frame :=
  let span := s.between s.start stop
  let token := span.trim
  let offset := s.start + span.margin
  if token.isEmpty then .ok s.frame
  else if token.hasBlank then
    .error ⟨.blankInKey token, offset + (token.takeWhile (!isBlank ·)).length⟩
  else s.fill s.frame (.word token offset (offset + token.length))

/-- The argument that a separator at the offset ends, and the list it ends. -/
def endArgument (s : State) (offset : Nat) : Except Fault (Frame × Key) := do
  let frame ← s.flush offset
  match frame.slot with
  | some key => .ok (frame, key)
  | none => .error ⟨.missingToken, offset⟩

/-! ## Reading one character -/

/-- Where a character leads: on, or to the end of the layer. -/
inductive Progress where
  | reading (state : State)
  | closed (keys : List Key)
  deriving DecidableEq

/-- The state right after a comma at the offset. -/
def separate (s : State) (offset : Nat) : Except Fault Progress := do
  let (frame, key) ← s.endArgument offset
  return .reading (s.fresh .code { frame with done := key :: frame.done, slot := none })

/-- The state right after a parenthesis that opens at the offset. -/
def openCall (s : State) (offset : Nat) : Except Fault Progress :=
  let span := s.between s.start offset
  let name := span.trim
  let head := s.start + span.margin
  if name.isEmpty then .error ⟨.missingName, offset⟩
  else if name.hasBlank then .error ⟨.blankInName name, head⟩
  else if nestingLimit ≤ s.outer.length then .error ⟨.tooDeep, offset⟩
  else
    .ok (.reading { s with
      mode := .code, start := s.pos, frame := .empty offset,
      outer := (⟨head, name⟩, s.frame) :: s.outer })

/-- The state right after a parenthesis that closes at the offset. -/
def close (s : State) (offset : Nat) : Except Fault Progress := do
  let (frame, key) ← s.endArgument offset
  let keys := frame.keysWith key
  match s.outer with
  | [] => return .closed keys
  | (head, parent) :: outer =>
    -- The call is an argument of the list around it.
    let call : Key := .call head.name keys head.offset s.pos (s.between head.offset s.pos)
    let parent ← s.fill parent call
    return .reading { s.fresh .code parent with outer }

/-- The state after the second half of a pair that begins a comment or continues the line. The
token before the pair ends where the pair begins. -/
def skip (s : State) (mode : Mode) : Except Failure Progress :=
  match s.flush (s.pos - 2) with
  | .ok frame => .ok (.reading (s.fresh mode frame))
  | .error fault => .error ⟨fault, s.pos - 2⟩

/-- The state after a character of code, which `s` has already seen. -/
def code (s : State) (c : Char) : Except Failure Progress :=
  let result : Except Fault Progress :=
    match c with
    | ',' => s.separate (s.pos - 1)
    | '(' => s.openCall (s.pos - 1)
    | ')' => s.close (s.pos - 1)
    -- The next character tells whether these belong to a token.
    | '/' => .ok (.reading (s.into .slash))
    | '\\' => .ok (.reading (s.into .backslash))
    | _ => .ok (.reading (s.into .code))
  result.mapError (⟨·, s.pos⟩)

/-- The state that has seen one more character. -/
def see (s : State) (c : Char) : State :=
  { s with pos := s.pos + 1, seen := c :: s.seen }

/-- Where the machine goes from a state with a character. -/
def step (s : State) (c : Char) : Except Failure Progress :=
  let t := s.see c
  match s.mode, c with
  -- Within a comment only its end counts. The next token begins behind it.
  | .block, '*' => .ok (.reading (t.into .star))
  | .block, _ => .ok (.reading t)
  | .star, '/' => .ok (.reading (t.fresh .code t.frame))
  | .star, '*' => .ok (.reading t)
  | .star, _ => .ok (.reading (t.into .block))
  | .line, '\n' => .ok (.reading (t.fresh .code t.frame))
  | .line, _ => .ok (.reading t)
  -- The second half of a pair.
  | .slash, '*' => t.skip .block
  | .slash, '/' => t.skip .line
  | .backslash, '\n' => t.skip .code
  -- A slash or a backslash that begins no pair is part of a token.
  | _, _ => t.code c

/-! ## Reading a layer -/

/-- A layer that has been read: its keys, the offset after its closing parenthesis, and the text
from there on. -/
structure Closed where
  keys : List Key
  stop : Nat
  rest : Text
  deriving DecidableEq

/-- Read a text up to the parenthesis that closes the layer. -/
def scan (s : State) : Text → Except Failure Closed
  | [] => .error ⟨⟨.unclosed, s.frame.paren⟩, s.pos⟩
  | c :: rest =>
    match s.step c with
    | .error failure => .error failure
    | .ok (.closed keys) => .ok ⟨keys, s.pos + 1, rest⟩
    | .ok (.reading t) => t.scan rest

/-! ## Progress -/

/-- Scanning goes on with the state that the next character leads to. -/
theorem scan_cons (s : State) (c : Char) (rest : Text) :
    s.scan (c :: rest) =
      match s.step c with
      | .error failure => .error failure
      | .ok (.closed keys) => .ok ⟨keys, s.pos + 1, rest⟩
      | .ok (.reading t) => t.scan rest := rfl

/-- What is left of a text after a layer is shorter than the text. -/
theorem scan_rest_length_lt {s : State} {text : Text} {closed : Closed}
    (h : s.scan text = .ok closed) : closed.rest.length < text.length := by
  induction text generalizing s with
  | nil => simp [scan] at h
  | cons c rest ih =>
    rw [scan_cons] at h
    split at h
    · exact nomatch h
    · obtain rfl := Except.ok.inj h
      simp
    · have := ih h
      simp only [List.length_cons]
      omega

/-! ## What follows does not matter -/

/-- Any fault but a missing parenthesis stays where it is, whatever comes after it. -/
theorem scan_error_append {s : State} {text : Text} {failure : Failure} (more : Text)
    (h : s.scan text = .error failure) (hcause : failure.fault.cause ≠ .unclosed) :
    s.scan (text ++ more) = .error failure := by
  induction text generalizing s with
  | nil =>
    obtain rfl := Except.error.inj h
    exact absurd rfl hcause
  | cons c rest ih =>
    rw [List.cons_append, scan_cons]
    rw [scan_cons] at h
    split at h
    · -- The character is the fault.
      obtain rfl := Except.error.inj h
      simp [*]
    · exact nomatch h
    · simp [*, ih h]

end State

end Keymap
