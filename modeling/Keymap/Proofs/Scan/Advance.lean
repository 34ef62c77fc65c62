import Keymap.Proofs.Relocation
import Keymap.Proofs.Scan.Step

/-!
# Scanning further on

The scanner counts offsets from wherever its text begins. Over the same characters, some places
further on, it takes the same steps, and every offset that it keeps, gives or reports is larger by
that many places. This holds of layers that are read and of every kind of fault.

## Key results

- `State.step_advance` — a step further on leads further on, or to the same fault further on
- `State.scan_advance` — and so does scanning
- `State.cursor_of_scan_error`, `State.stop_of_scan` — scanning ends within the text
-/

namespace Keymap

/-! ## Moving further on -/

/-- The key as it stands `d` characters further on. -/
def Node.advance (d : Nat) (key : Key) : Key :=
  key.relocate (d + ·)

/-- The fault as it is reported `d` characters further on. That there is no layer at all is reported
at the beginning, wherever that is. -/
def Fault.advance (d : Nat) (fault : Fault) : Fault :=
  match fault.cause with
  | .noInvocation _ => fault
  | _ => { fault with offset := d + fault.offset }

/-- The failure as it comes about `d` characters further on. -/
def Failure.advance (d : Nat) (failure : Failure) : Failure :=
  ⟨failure.fault.advance d, d + failure.cursor⟩

/-- The open list of arguments as it stands `d` characters further on. -/
def Frame.advance (d : Nat) (frame : Frame) : Frame :=
  ⟨d + frame.paren, frame.done.map (Node.advance d), frame.slot.map (Node.advance d)⟩

/-- The name of an open call as it stands `d` characters further on. -/
def Head.advance (d : Nat) (head : Head) : Head :=
  { head with offset := d + head.offset }

/-- The keys of a list that a last key ends stand further on together. -/
theorem Frame.keysWith_advance (frame : Frame) (d : Nat) (last : Key) :
    (frame.advance d).keysWith (last.advance d) = (frame.keysWith last).map (Node.advance d) := by
  simp [keysWith, advance]

namespace State

/-- The state that has come to the same point of a text `d` characters further on. -/
def advance (d : Nat) (s : State) : State :=
  { s with
    pos := d + s.pos
    start := d + s.start
    frame := s.frame.advance d
    outer := s.outer.map fun (head, frame) => (head.advance d, frame.advance d) }

/-- Where a character leads, `d` characters further on. -/
def Progress.advance (d : Nat) : Progress → Progress
  | .reading s => .reading (s.advance d)
  | .closed keys => .closed (keys.map (Node.advance d))

/-- The layer as it is read `d` characters further on. -/
def Closed.advance (d : Nat) (closed : Closed) : Closed :=
  ⟨closed.keys.map (Node.advance d), d + closed.stop, closed.rest⟩

/-! ## Arguments further on -/

/-- Between two offsets that are moved stands the same text. -/
theorem between_advance (s : State) (d start stop : Nat) :
    (s.advance d).between (d + start) (d + stop) = s.between start stop := by
  simp only [between, advance, Nat.add_sub_add_left]

/-- A slot is filled, or found filled, further on. -/
theorem fill_advance (s : State) (d : Nat) (frame : Frame) (key : Key) :
    (s.advance d).fill (frame.advance d) (key.advance d) =
      ((s.fill frame key).map (Frame.advance d)).mapError (Fault.advance d) := by
  obtain ⟨paren, done, slot⟩ := frame
  cases slot with
  | none => rfl
  | some previous =>
    have hbetween := s.between_advance d previous.offset key.stop
    simp only [fill, Frame.advance, Option.map_some, Node.advance, Node.offset_relocate,
      Node.stop_relocate, hbetween]
    rfl

/-- What is pending ends in the same way further on. -/
theorem flush_advance (s : State) (d stop : Nat) :
    (s.advance d).flush (d + stop) =
      ((s.flush stop).map (Frame.advance d)).mapError (Fault.advance d) := by
  have hstart : (s.advance d).start = d + s.start := rfl
  simp only [flush, hstart, between_advance]
  split
  · rfl
  · split
    · simp only [Nat.add_assoc]
      rfl
    · rw [← fill_advance]
      simp only [Node.advance, Node.relocate, Nat.add_assoc]
      rfl

/-- An argument ends in the same way further on. -/
theorem endArgument_advance (s : State) (d offset : Nat) :
    (s.advance d).endArgument (d + offset) =
      ((s.endArgument offset).map fun (frame, key) => (frame.advance d, key.advance d)).mapError
        (Fault.advance d) := by
  simp only [endArgument, flush_advance, bind, Except.bind]
  cases s.flush offset with
  | error fault => rfl
  | ok frame =>
    obtain ⟨paren, done, slot⟩ := frame
    cases slot <;> rfl

/-! ## Steps further on -/

/-- A comma parts arguments further on. -/
theorem separate_advance (s : State) (d offset : Nat) :
    (s.advance d).separate (d + offset) =
      ((s.separate offset).map (Progress.advance d)).mapError (Fault.advance d) := by
  simp only [separate, endArgument_advance, bind, Except.bind]
  cases s.endArgument offset <;> rfl

/-- A parenthesis opens a call further on. -/
theorem openCall_advance [Machine] (s : State) (d offset : Nat) :
    (s.advance d).openCall (d + offset) =
      ((s.openCall offset).map (Progress.advance d)).mapError (Fault.advance d) := by
  have hstart : (s.advance d).start = d + s.start := rfl
  have hlength : (s.advance d).outer.length = s.outer.length := List.length_map _
  simp only [openCall, hstart, hlength, between_advance]
  split
  · rfl
  · split
    · simp only [Nat.add_assoc]
      rfl
    · split
      · rfl
      · simp only [Nat.add_assoc]
        rfl

/-- A parenthesis closes the layer or a call further on. -/
theorem close_advance (s : State) (d offset : Nat) :
    (s.advance d).close (d + offset) =
      ((s.close offset).map (Progress.advance d)).mapError (Fault.advance d) := by
  simp only [close, endArgument_advance, bind, Except.bind]
  cases s.endArgument offset with
  | error fault => rfl
  | ok result =>
    obtain ⟨frame, key⟩ := result
    -- The argument ends as it would without the shift.
    have hresult : ((Except.ok (frame, key)).map fun x : Frame × Key =>
        (x.1.advance d, x.2.advance d)).mapError (Fault.advance d) =
        .ok (frame.advance d, key.advance d) := rfl
    rw [hresult]
    cases houter : s.outer with
    | nil =>
      simp only [advance, houter, List.map_nil, Frame.keysWith_advance]
      rfl
    | cons around outer =>
      obtain ⟨head, parent⟩ := around
      have houter' : (s.advance d).outer = (head.advance d, parent.advance d) ::
          outer.map (fun (head, frame) => (head.advance d, frame.advance d)) := by
        simp only [advance, houter, List.map_cons]
      -- The key of the call stands further on, and is put into the slot around it.
      let call : Key := .call head.name (frame.keysWith key) head.offset s.pos
        (s.between head.offset s.pos)
      have hcall : call.advance d = .call (head.advance d).name
          ((frame.keysWith key).map (Node.advance d)) (head.advance d).offset (s.advance d).pos
          (s.between head.offset s.pos) := by
        simp only [call, Node.advance, Node.relocate, Node.relocateAll_eq_map]
        rfl
      have hbetween : (s.advance d).between (head.advance d).offset (s.advance d).pos =
          s.between head.offset s.pos := s.between_advance d head.offset s.pos
      have hfill := s.fill_advance d parent call
      rw [hcall] at hfill
      simp only [houter', hbetween, Frame.keysWith_advance, hfill]
      simp only [call]
      cases s.fill parent (.call head.name (frame.keysWith key) head.offset s.pos
        (s.between head.offset s.pos)) <;> rfl

/-- A pair ends what is before it further on. The pair itself lies behind some character. -/
theorem skip_advance (s : State) (d : Nat) (mode : Mode) (h : 2 ≤ s.pos) :
    (s.advance d).skip mode =
      ((s.skip mode).map (Progress.advance d)).mapError (Failure.advance d) := by
  have hpos : (s.advance d).pos - 2 = d + (s.pos - 2) := by
    show d + s.pos - 2 = d + (s.pos - 2)
    omega
  simp only [skip, hpos, flush_advance]
  cases s.flush (s.pos - 2) <;> rfl

variable [Machine]

/-- A character of code is read in the same way further on. -/
theorem code_advance (s : State) (d : Nat) (c : Char) (h : 0 < s.pos) :
    (s.advance d).code c =
      ((s.code c).map (Progress.advance d)).mapError (Failure.advance d) := by
  have hpos : (s.advance d).pos - 1 = d + (s.pos - 1) := by
    show d + s.pos - 1 = d + (s.pos - 1)
    omega
  -- A fault becomes a failure at the cursor, here and further on.
  have hfailure (result : Except Fault Progress) :
      ((result.map (Progress.advance d)).mapError (Fault.advance d)).mapError
          (Failure.mk · (d + s.pos)) =
        ((result.mapError (Failure.mk · s.pos)).map (Progress.advance d)).mapError
          (Failure.advance d) := by
    cases result <;> rfl
  simp only [code, hpos, separate_advance, openCall_advance, close_advance]
  rw [← hfailure]
  split <;> rfl

/-- A step further on leads further on, or to the same fault further on. -/
theorem step_advance (s : State) (d : Nat) (c : Char) (h : 0 < s.pos) :
    (s.advance d).step c =
      ((s.step c).map (Progress.advance d)).mapError (Failure.advance d) := by
  have hsee : (s.advance d).see c = (s.see c).advance d := rfl
  have hmode : (s.advance d).mode = s.mode := rfl
  have hpos : 2 ≤ (s.see c).pos := Nat.succ_le_succ h
  simp only [step, hsee, hmode]
  split
  case h_8 | h_9 | h_10 => exact skip_advance _ d _ hpos
  case h_11 => exact code_advance _ d _ (Nat.zero_lt_of_lt hpos)
  all_goals rfl

/-! ## Scanning further on -/

/-- Scanning further on reads the same layer further on, or ends with the same fault further on. -/
theorem scan_advance (s : State) (d : Nat) (text : Text) (h : 0 < s.pos) :
    (s.advance d).scan text =
      ((s.scan text).map (Closed.advance d)).mapError (Failure.advance d) := by
  induction text generalizing s with
  | nil => rfl
  | cons c rest ih =>
    rw [scan_cons, scan_cons, step_advance s d c h]
    cases hstep : s.step c with
    | error failure => rfl
    | ok p =>
      cases p with
      | closed keys => rfl
      | reading t =>
        exact ih t (by rw [(step_seen hstep).2]; omega)

/-! ## Where scanning ends -/

/-- A character of code that is a fault has been read. -/
theorem cursor_of_code_error {s : State} {c : Char} {failure : Failure}
    (h : s.code c = .error failure) : failure.cursor = s.pos := by
  obtain ⟨fault, -, rfl⟩ := (mapError_eq_error_iff ..).mp h
  rfl

omit [Machine] in
/-- A fault before a pair is found with its second half, and leaves both halves unread. -/
theorem cursor_of_skip_error {s : State} {mode : Mode} {failure : Failure}
    (h : s.skip mode = .error failure) : failure.cursor = s.pos - 2 := by
  rw [skip] at h
  split at h
  · cases h
  · obtain rfl := Except.error.inj h
    rfl

/-- A step that fails leaves its character read, or unread together with the one before it, with
which it makes a pair. -/
theorem cursor_of_step_error {s : State} {c : Char} {failure : Failure}
    (h : s.step c = .error failure) :
    failure.cursor = s.pos + 1 ∨ s.mode ≠ .code ∧ failure.cursor = s.pos - 1 := by
  cases hmode : s.mode.inCode with
  | false =>
    obtain ⟨t, hstep⟩ := step_comment hmode c
    rw [hstep] at h
    cases h
  | true =>
    cases hcompletes : s.mode.completes c with
    | false =>
      rw [step_code hmode hcompletes] at h
      exact .inl (cursor_of_code_error h)
    | true =>
      rw [step_pair hcompletes] at h
      refine .inr ⟨fun hcode => ?_, cursor_of_skip_error h⟩
      rw [hcode] at hcompletes
      cases hcompletes

/-- Scanning that fails has gone on within the text. -/
theorem cursor_of_scan_error {s : State} {text : Text} {failure : Failure}
    (h : s.scan text = .error failure) :
    s.pos ≤ failure.cursor + 1 ∧ (s.mode = .code → s.pos ≤ failure.cursor) ∧
      failure.cursor ≤ s.pos + text.length := by
  induction text generalizing s with
  | nil =>
    obtain rfl := Except.error.inj h
    exact ⟨Nat.le_succ _, fun _ => Nat.le_refl _, Nat.le_refl _⟩
  | cons c rest ih =>
    rw [List.length_cons]
    rw [scan_cons] at h
    cases hstep : s.step c with
    | error failure' =>
      rw [hstep] at h
      obtain rfl := Except.error.inj h
      -- Only within a pair may the cursor lie one before the position.
      rcases cursor_of_step_error hstep with hcursor | ⟨hmode, hcursor⟩
      · exact ⟨by omega, fun _ => by omega, by omega⟩
      · exact ⟨by omega, fun hcode => absurd hcode hmode, by omega⟩
    | ok p =>
      cases p with
      | closed keys =>
        rw [hstep] at h
        cases h
      | reading t =>
        rw [hstep] at h
        obtain ⟨hstart, -, hend⟩ := ih h
        have hpos : t.pos = s.pos + 1 := (step_seen hstep).2
        exact ⟨by omega, fun _ => by omega, by omega⟩

/-- A layer that is read ends within the text, and the rest of the text follows it. -/
theorem stop_of_scan {s : State} {text : Text} {closed : Closed} (h : s.scan text = .ok closed) :
    s.pos < closed.stop ∧ closed.stop + closed.rest.length = s.pos + text.length := by
  induction text generalizing s with
  | nil => cases h
  | cons c rest ih =>
    rw [List.length_cons]
    rw [scan_cons] at h
    split at h
    · cases h
    · obtain rfl := Except.ok.inj h
      exact ⟨Nat.lt_succ_self _, Nat.add_right_comm _ 1 _⟩
    · rename_i t hstep
      obtain ⟨hlt, hrest⟩ := ih h
      have hpos : t.pos = s.pos + 1 := (step_seen hstep).2
      exact ⟨by omega, by omega⟩

end State

end Keymap
