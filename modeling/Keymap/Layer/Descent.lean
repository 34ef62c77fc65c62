import Keymap.Layer.Invocation

/-!
# Reading by descent

The layers of a text may also be read without a state that holds all open lists: a loop reads one
list of arguments, and where a call begins it reads the list of the call by starting over. What all
lists share is a cursor with a count of the open parentheses and a stack of their offsets; each list
has variables of its own. A list is left at its closing parenthesis, which lowers the count, or with
the text, and whoever has begun the list finds out which of the two it was from the count alone.

The cursor outlives a reading. Whatever ended one, the next one begins with the cursor, the count
and the stack that were left, and sets all three where it finds a layer.

## Key results

- `Descent.lt_stop_of_turn`, `Descent.resume_eq_ok` — a turn moves on, and a call is taken as read
-/

namespace Keymap

/-- Whether two characters belong together: they begin a comment, or they continue the line. -/
def isPair (c d : Char) : Bool :=
  (c == '/' && (d == '*' || d == '/')) || (c == '\\' && d == '\n')

/-- A mark is not found before the search begins. -/
theorem le_of_seek {marker text : Text} {pos : Nat} {found : Nat × Text}
    (h : seek marker pos text = some found) : pos ≤ found.1 := by
  induction text generalizing pos with
  | nil => simp [seek] at h
  | cons c rest ih =>
    rw [seek] at h
    split at h
    · obtain rfl := Option.some.inj h
      exact Nat.le_refl pos
    · exact Nat.le_of_succ_le (ih h)

namespace Descent

/-! ## What reading changes -/

/-- What all lists share: the offset of the next character, the number of parentheses that are
open, and their offsets, the latest first. -/
structure Cursor where
  pos : Nat
  depth : Int
  opened : List Nat
  deriving DecidableEq

/-- What a list has of its own: its arguments, the latest first, the place where the next token may
begin, and whether there is an argument since the last separator. -/
structure Locals where
  args : List Key
  start : Nat
  filled : Bool
  deriving DecidableEq

/-- Why reading stops: there is a fault, calls are nested too deeply, or the first element of an
empty list was asked for. -/
inductive Raised where
  | fault (fault : Fault)
  | tooDeep
  | emptyList
  deriving DecidableEq

/-- The cursor behind the parenthesis of a call. -/
def Cursor.enter (p : Cursor) : Cursor :=
  ⟨p.pos + 1, p.depth + 1, p.pos :: p.opened⟩

/-- The variables of a list that begins at an offset. -/
def Locals.begin (pos : Nat) : Locals :=
  ⟨[], pos, false⟩

/-! ## Tokens -/

/-- A token or a call, from `offset` to `stop`, where the slot has been filled before. -/
def reject (text : Text) (args : List Key) (offset stop : Nat) : Raised :=
  match args with
  | [] => .emptyList
  | last :: _ => .fault ⟨.blankInKey (text.slice last.offset stop), offset⟩

/-- Make the text from the start up to `stop` an argument, unless it is blank. -/
def flushWord (text : Text) (l : Locals) (stop : Nat) : Except Raised Locals :=
  if stop ≤ l.start then .ok l
  else
    let span := text.slice l.start stop
    let token := span.trim
    let offset := l.start + span.margin
    if token.isEmpty then .ok l
    else if token.hasBlank then
      .error (.fault ⟨.blankInKey token, offset + (token.takeWhile (!isBlank ·)).length⟩)
    else if l.filled then .error (reject text l.args offset (offset + token.length))
    else .ok { l with args := .word token offset (offset + token.length) :: l.args, filled := true }

/-- End the argument before a separator. There must be one. -/
def endToken (text : Text) (l : Locals) (separator : Nat) : Except Raised Locals :=
  match flushWord text l separator with
  | .error raised => .error raised
  | .ok l => if l.filled then .ok l else .error (.fault ⟨.missingToken, separator⟩)

/-- The name before the parenthesis of a call. -/
def callHead (text : Text) (start paren : Nat) : Except Raised Head :=
  let span := text.slice start paren
  let name := span.trim
  let offset := start + span.margin
  if name.isEmpty then .error (.fault ⟨.missingName, paren⟩)
  else if name.hasBlank then .error (.fault ⟨.blankInName name, offset⟩)
  else .ok ⟨offset, name⟩

/-! ## One turn of the loop -/

/-- What a turn of the loop comes to. -/
inductive Turn where
  /-- Go on from an offset. -/
  | next (stop : Nat) (l : Locals)
  /-- Go on behind a comma. -/
  | comma (l : Locals)
  /-- Read the arguments of a call. -/
  | enter (head : Head)
  /-- Leave the list behind its closing parenthesis. -/
  | leave (l : Locals)
  deriving DecidableEq

/-- Where a mark ends that is looked for from an offset on: with the text if it is not there. -/
def behind (text mark : Text) (pos : Nat) : Nat :=
  match seek mark pos (text.drop pos) with
  | none => text.length
  | some (place, _) => place + mark.length

/-- Where reading goes on from a pair of characters at an offset: behind the comment that it begins,
or behind the pair if it continues the line. -/
def behindPair (text : Text) (pos : Nat) (second : Char) : Nat :=
  if second = '*' then behind text ['*', '/'] (pos + 2)
  else if second = '/' then behind text ['\n'] (pos + 2)
  else pos + 2

/-- One turn of the loop, at the offset of the character `c` and before the text `rest`. Where the
turn stops reading, it says up to where it has read. -/
def turn (text : Text) (pos : Nat) (l : Locals) (c : Char) (rest : Text) :
    Except (Raised × Nat) Turn :=
  match rest.head?.filter (isPair c) with
  | some second =>
    match flushWord text l pos with
    | .error raised => .error (raised, pos)
    | .ok l =>
      let stop := behindPair text pos second
      .ok (.next stop { l with start := stop })
  | none =>
    match c with
    | ',' =>
      match endToken text l pos with
      | .error raised => .error (raised, pos + 1)
      | .ok l => .ok (.comma { l with start := pos + 1, filled := false })
    | '(' =>
      match callHead text l.start pos with
      | .error raised => .error (raised, pos + 1)
      | .ok head => .ok (.enter head)
    | ')' =>
      match endToken text l pos with
      | .error raised => .error (raised, pos + 1)
      | .ok l => .ok (.leave l)
    | _ => .ok (.next (pos + 1) l)

/-! ## Progress -/

section

variable {text : Text} {pos : Nat} {c : Char} {rest : Text}

theorem lt_length_of_drop (h : text.drop pos = c :: rest) : pos < text.length := by
  have hlength := congrArg List.length h
  simp only [List.length_drop, List.length_cons] at hlength
  omega

/-- What is behind the first character of what is left. -/
theorem drop_succ (h : text.drop pos = c :: rest) : text.drop (pos + 1) = rest := by
  rw [← List.drop_drop, h]
  rfl

/-- Reading goes on behind a mark that is looked for, or with the text. -/
theorem le_behind (mark : Text) (h : pos ≤ text.length) : pos ≤ behind text mark pos := by
  rw [behind]
  split
  · exact h
  · rename_i found hseek
    exact Nat.le_trans (le_of_seek hseek) (Nat.le_add_right _ _)

/-- Reading goes on behind a pair. -/
theorem lt_behindPair (second : Char) (h : pos + 2 ≤ text.length) :
    pos < behindPair text pos second := by
  rw [behindPair]
  split
  · exact Nat.lt_of_lt_of_le (by omega) (le_behind _ h)
  · split
    · exact Nat.lt_of_lt_of_le (by omega) (le_behind _ h)
    · omega

/-- A turn moves on. -/
theorem lt_stop_of_turn {l l' : Locals} {stop : Nat} (hdrop : text.drop pos = c :: rest)
    (h : turn text pos l c rest = .ok (.next stop l')) : pos < stop := by
  unfold turn at h
  split at h
  · rename_i second hsecond
    split at h
    · exact nomatch h
    · obtain ⟨rfl, -⟩ := Turn.next.inj (Except.ok.inj h)
      -- The second character of the pair lies within the text.
      obtain ⟨more, rfl⟩ := List.head?_eq_some_iff.mp (Option.filter_eq_some_iff.mp hsecond).1
      exact lt_behindPair second (lt_length_of_drop (drop_succ hdrop))
  · split at h
    · split at h <;> exact nomatch h
    · split at h <;> exact nomatch h
    · split at h <;> exact nomatch h
    · obtain ⟨rfl, -⟩ := Turn.next.inj (Except.ok.inj h)
      exact Nat.lt_succ_self pos

end

/-! ## Coming back from a call -/

/-- What reading a list comes to: its arguments and the cursor behind them, or why it stopped, with
the cursor at that moment. -/
abbrev Outcome := Except (Raised × Cursor) (List Key × Cursor)

/-- A list that is left is left further on. -/
def Outcome.Ahead (pos : Nat) (outcome : Outcome) : Prop :=
  ∀ args q, outcome = .ok (args, q) → pos ≤ q.pos

/-- Take a call for an argument after its list has been left. The count of open parentheses, with
that of the call, must have been lowered. -/
def resume (text : Text) (depth : Int) (paren : Nat) (l : Locals) (head : Head)
    (params : List Key) (q : Cursor) : Except (Raised × Cursor) (Cursor × Locals) :=
  match q.opened with
  | [] => .error (.emptyList, q)
  | _ :: opened =>
    let q := { q with opened }
    if q.depth ≠ depth - 1 then .error (.fault ⟨.unclosed, paren⟩, q)
    else if l.filled then .error (reject text l.args head.offset q.pos, q)
    else
      let call : Key := .call head.name params head.offset q.pos (text.slice head.offset q.pos)
      .ok (q, ⟨call :: l.args, q.pos, true⟩)

/-- A call is taken for an argument if its parenthesis has been closed and the slot is open. -/
theorem resume_eq_ok {text : Text} {depth : Int} {paren : Nat} {l l' : Locals} {head : Head}
    {params : List Key} {q q' : Cursor}
    (h : resume text depth paren l head params q = .ok (q', l')) :
    q' = { q with opened := q.opened.tail } ∧ q.depth = depth - 1 ∧ l.filled = false ∧
      l' = ⟨.call head.name params head.offset q.pos (text.slice head.offset q.pos) :: l.args,
        q.pos, true⟩ := by
  -- Three checks stand behind a call: of the stack, of the depth, and of the slot.
  unfold resume at h
  split at h
  · exact nomatch h
  · rename_i top opened hopened
    simp only at h
    split at h
    · exact nomatch h
    · rename_i hdepth
      split at h
      · exact nomatch h
      · rename_i hfilled
        obtain ⟨rfl, rfl⟩ := Prod.mk.inj (Except.ok.inj h)
        exact ⟨by rw [hopened]; rfl, by simpa using hdepth, by simpa using hfilled, rfl⟩

/-! ## Where reading begins and ends -/

/-- How a reading that stops is reported, unless it was for want of an element. Nesting too deep is
reported at the latest parenthesis. -/
def report : Raised × Cursor → Option Failure
  | (.fault fault, q) => some ⟨fault, q.pos⟩
  | (.tooDeep, q) => q.opened.head?.map fun paren => ⟨⟨.tooDeep, paren⟩, q.pos⟩
  | (.emptyList, _) => none

/-- What is reported of a reading that stops is where the cursor was left. -/
theorem cursor_of_report {stopped : Raised × Cursor} {failure : Failure}
    (h : report stopped = some failure) : failure.cursor = stopped.2.pos := by
  obtain ⟨raised, q⟩ := stopped
  cases raised with
  | fault fault =>
    obtain rfl := Option.some.inj h
    rfl
  | tooDeep =>
    obtain ⟨paren, -, rfl⟩ := Option.map_eq_some_iff.mp h
    rfl
  | emptyList => cases h

/-- The cursor behind the parenthesis of a layer. The count and the stack begin anew. -/
def Cursor.atLayer (p : Cursor) (paren : Nat) : Cursor :=
  { p with pos := paren + 1, depth := 1, opened := [paren] }

/-- A layer sets the count and the stack, whatever they were. -/
theorem Cursor.atLayer_eq (p : Cursor) (paren : Nat) : p.atLayer paren = ⟨paren + 1, 1, [paren]⟩ :=
  rfl

/-! ## Reading lists -/

variable [Machine]

/-- Read a list of arguments with a number of calls around it, from the cursor on. -/
def arguments (text : Text) (level : Nat) (p : Cursor) (l : Locals) :
    { outcome : Outcome // outcome.Ahead p.pos } :=
  match hdrop : text.drop p.pos with
  | [] => ⟨.ok (l.args.reverse, p), by rintro _ _ ⟨⟩; exact Nat.le_refl _⟩
  | c :: rest =>
    have hlength : p.pos < text.length := lt_length_of_drop hdrop
    match hturn : turn text p.pos l c rest with
    | .error (raised, pos) => ⟨.error (raised, { p with pos }), nofun⟩
    | .ok (.next stop l') =>
      have hlt : p.pos < stop := lt_stop_of_turn hdrop hturn
      let later := arguments text level { p with pos := stop } l'
      ⟨later.1, fun args q h => Nat.le_trans (Nat.le_of_lt hlt) (later.2 args q h)⟩
    | .ok (.comma l') =>
      let later := arguments text level { p with pos := p.pos + 1 } l'
      ⟨later.1, fun args q h => Nat.le_trans (Nat.le_succ p.pos) (later.2 args q h)⟩
    | .ok (.leave l') =>
      ⟨.ok (l'.args.reverse, ⟨p.pos + 1, p.depth - 1, p.opened⟩),
        by rintro _ _ ⟨⟩; exact Nat.le_succ _⟩
    | .ok (.enter head) =>
      if nestingLimit ≤ level then ⟨.error (.tooDeep, p.enter), nofun⟩
      else
        match arguments text (level + 1) p.enter (.begin p.enter.pos) with
        | ⟨.error stopped, _⟩ => ⟨.error stopped, nofun⟩
        | ⟨.ok (params, q), hq⟩ =>
          match hresume : resume text p.enter.depth p.pos l head params q with
          | .error stopped => ⟨.error stopped, nofun⟩
          | .ok (q', l') =>
            have hlt : p.pos < q'.pos := (resume_eq_ok hresume).1 ▸ hq params q rfl
            let later := arguments text level q' l'
            ⟨later.1, fun args q h => Nat.le_trans (Nat.le_of_lt hlt) (later.2 args q h)⟩
termination_by text.length - p.pos
decreasing_by
  · omega
  · omega
  · simp only [Cursor.enter]
    omega
  · omega

/-- What reading a list from the cursor on comes to. -/
def read (text : Text) (level : Nat) (p : Cursor) (l : Locals) : Outcome :=
  (arguments text level p l).1

/-! ## Layers -/

/-- Read a layer whose parenthesis is at an offset. In the end no parenthesis may be open. -/
def layer (text : Text) (p : Cursor) (paren : Nat) :
    Except (Option Failure × Cursor) (List Key × Cursor) :=
  match read text 0 (p.atLayer paren) (.begin (paren + 1)) with
  | .error (raised, q) => .error (report (raised, q), q)
  | .ok (keys, q) =>
    if q.depth ≠ 0 then .error (some ⟨⟨.unclosed, paren⟩, q.pos⟩, q) else .ok (keys, q)

/-- A layer is left behind its parenthesis. -/
theorem lt_pos_of_layer {text : Text} {p q : Cursor} {paren : Nat} {keys : List Key}
    (h : layer text p paren = .ok (keys, q)) : paren < q.pos := by
  unfold layer at h
  split at h
  · exact nomatch h
  · rename_i hread
    split at h
    · exact nomatch h
    · obtain ⟨rfl, rfl⟩ := Prod.mk.inj (Except.ok.inj h)
      exact (arguments text 0 (p.atLayer paren) (.begin (paren + 1))).2 _ _ hread

/-- A layer is left behind the place from which it was searched. -/
theorem lt_of_layer {opener text rest : Text} {p q : Cursor} {start : Nat} {keys : List Key}
    (hseek : seek (marker opener) p.pos (text.drop p.pos) = some (start, rest))
    (hlayer : layer text p (start + opener.length) = .ok (keys, q)) : p.pos < q.pos := by
  have hle : p.pos ≤ start := le_of_seek hseek
  have hpast := lt_pos_of_layer hlayer
  omega

omit [Machine] in
/-- An opener is found only before the end. -/
theorem lt_length_of_seek {opener text rest : Text} {pos start : Nat}
    (hseek : seek (marker opener) pos (text.drop pos) = some (start, rest)) :
    pos < text.length := by
  have hshort := length_lt_of_seek (by simp [marker]) hseek
  simp only [List.length_drop] at hshort
  omega

/-- What reading all layers comes to: those that were read, what stopped it, and the cursor in the
end. -/
structure Layers where
  found : List Invocation
  stopped : Option (Option Failure)
  cursor : Cursor

/-- Read the layers of a text from the cursor on. -/
def layers (opener text : Text) (p : Cursor) : Layers :=
  match hseek : seek (marker opener) p.pos (text.drop p.pos) with
  | none => ⟨[], none, p⟩
  | some (start, _) =>
    match hlayer : layer text p (start + opener.length) with
    | .error (failure, q) => ⟨[], some failure, q⟩
    | .ok (keys, q) =>
      have _hlt : p.pos < q.pos := lt_of_layer hseek hlayer
      have _hlength : p.pos < text.length := lt_length_of_seek hseek
      let later := layers opener text q
      ⟨⟨start, keys, q.pos⟩ :: later.found, later.stopped, later.cursor⟩
termination_by text.length - p.pos
decreasing_by omega

end Descent

end Keymap
