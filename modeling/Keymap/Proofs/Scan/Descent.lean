import Keymap.Outline
import Keymap.Proofs.Descent
import Keymap.Proofs.Scan.Complete

/-!
# The scanner as a descent

The scanner and the descent read the same. The frame of the scanner holds the variables of the
innermost list, the frames around it those of the lists that wait for it, and what the descent
does when it comes back from a list the scanner does at the closing parenthesis. Only the pairs are
found in different ways: the descent looks one character ahead, where the scanner remembers one.

## Key results

- `Descent.Reads.scan` — scanning comes to what reading a list comes to
- `Descent.layer_eq_scan` — a layer is read to the same keys, or to the same fault
- `Descent.layers_eq_sweep` — and so are all layers of a text, whatever the cursor was left with
-/

namespace Keymap

/-- A slice that ends before it begins is empty. -/
theorem Text.slice_eq_nil (text : Text) {start stop : Nat} (h : stop ≤ start) :
    text.slice start stop = [] := by
  rw [slice, Nat.sub_eq_zero_of_le h, List.take_zero]

/-- A slice goes on with the character at its end. -/
theorem Text.slice_succ {text : Text} {start pos : Nat} {c : Char} {rest : Text}
    (hle : start ≤ pos) (h : text.drop pos = c :: rest) :
    text.slice start (pos + 1) = text.slice start pos ++ [c] := by
  have hone : text.slice pos (pos + 1) = [c] := by
    rw [slice, h, Nat.add_sub_cancel_left, List.take_succ_cons, List.take_zero]
  rw [← slice_append_slice text hle (Nat.le_succ pos), hone]

/-! ## What the scanner knows -/

/-- The variables of a list as a frame holds them. -/
def Frame.locals (frame : Frame) (start : Nat) : Descent.Locals :=
  ⟨frame.slot.toList ++ frame.done, start, frame.slot.isSome⟩

namespace State

/-- What the scanner knows of a text, from the offset `base` on: all that it has seen, and nothing
of what it keeps lies before. -/
structure Knows (text : Text) (base : Nat) (s : State) : Prop where
  seen : s.seen = (text.slice base s.pos).reverse
  le_length : s.pos ≤ text.length
  base_le : base ≤ s.start
  start_le : s.start ≤ s.pos
  slot : ∀ key ∈ s.frame.slot, base ≤ key.offset
  heads : ∀ entry ∈ s.outer, base ≤ entry.1.offset
  slots : ∀ entry ∈ s.outer, ∀ key ∈ entry.2.slot, base ≤ key.offset

variable {text : Text} {base : Nat} {s : State}

/-- Between two offsets that have been seen stands the slice of the text. -/
theorem Knows.between (h : s.Knows text base) {start stop : Nat} (hstart : base ≤ start)
    (hstop : stop ≤ s.pos) : s.between start stop = text.slice start stop := by
  rw [State.between, h.seen]
  rcases Nat.le_total start stop with hle | hle
  · have hbefore := text.slice_append_slice hstart hle
    have hall := text.slice_append_slice (Nat.le_trans hstart hle) hstop
    have hlast : (text.slice stop s.pos).reverse.length = s.pos - stop := by
      have := h.le_length
      rw [List.length_reverse, Text.length_slice]
      omega
    have hmiddle : (text.slice start stop).reverse.length = stop - start := by
      have := h.le_length
      rw [List.length_reverse, Text.length_slice]
      omega
    rw [← hall, ← hbefore, List.reverse_append, List.reverse_append, ← hlast, List.drop_left,
      ← hmiddle, List.take_left, List.reverse_reverse]
  · rw [Text.slice_eq_nil text hle, Nat.sub_eq_zero_of_le hle, List.take_zero]
    rfl

/-- One more character is seen. -/
theorem Knows.see {c : Char} {rest : Text} (h : s.Knows text base)
    (hdrop : text.drop s.pos = c :: rest) : (s.see c).Knows text base := by
  have hlength := Descent.lt_length_of_drop hdrop
  have hle := Nat.le_trans h.base_le h.start_le
  refine { h with seen := ?_, le_length := hlength, start_le := Nat.le_succ_of_le h.start_le }
  simp only [State.see]
  rw [h.seen, Text.slice_succ hle hdrop, List.reverse_append]
  rfl

/-- A change of the mode does not matter for what is known. -/
theorem Knows.into (h : s.Knows text base) (mode : Mode) : (s.into mode).Knows text base :=
  ⟨h.seen, h.le_length, h.base_le, h.start_le, h.slot, h.heads, h.slots⟩

/-- What is known goes on to hold where the next token may begin right here. -/
theorem Knows.fresh (h : s.Knows text base) (mode : Mode) {frame : Frame}
    (hslot : ∀ key ∈ frame.slot, base ≤ key.offset) : (s.fresh mode frame).Knows text base :=
  ⟨h.seen, h.le_length, Nat.le_trans h.base_le h.start_le, Nat.le_refl _, hslot, h.heads, h.slots⟩

/-- What is known where a call has been left, with its list in the slot. -/
theorem Knows.behind (h : s.Knows text base) {stop : Nat} {frame : Frame} (hle : s.pos ≤ stop)
    (hstop : stop ≤ text.length) (hslot : ∀ key ∈ frame.slot, base ≤ key.offset) :
    Knows text base ⟨.code, stop, stop, (text.slice base stop).reverse, frame, s.outer⟩ :=
  ⟨rfl, hstop, Nat.le_trans h.base_le (Nat.le_trans h.start_le hle), Nat.le_refl _, hslot, h.heads,
    h.slots⟩

/-- What is flushed stands in the text from the start on, in a list at the same parenthesis. -/
theorem Knows.of_flush (h : s.Knows text base) {stop : Nat} {frame : Frame}
    (hflush : s.flush stop = .ok frame) :
    (∀ key ∈ frame.slot, base ≤ key.offset) ∧ frame.paren = s.frame.paren := by
  simp only [State.flush] at hflush
  split at hflush
  · obtain rfl := Except.ok.inj hflush
    exact ⟨h.slot, rfl⟩
  · split at hflush
    · cases hflush
    · rw [fill] at hflush
      split at hflush
      · obtain rfl := Except.ok.inj hflush
        refine ⟨?_, rfl⟩
        rintro _ ⟨⟩
        exact Nat.le_trans h.base_le (Nat.le_add_right _ _)
      · cases hflush

/-! ## Tokens -/

/-- Where the slot has been filled, a token is refused in the same words. -/
theorem Knows.reject (h : s.Knows text base) {stop : Nat} (hstop : stop ≤ s.pos) {frame : Frame}
    {previous : Key} (hslot : frame.slot = some previous) (hprevious : base ≤ previous.offset)
    (start offset : Nat) :
    Descent.reject text (frame.locals start).args offset stop =
      .fault ⟨.blankInKey (s.between previous.offset stop), offset⟩ := by
  rw [h.between hprevious hstop]
  simp only [Frame.locals, hslot]
  rfl

/-- Flushing in the scanner is flushing in the descent. -/
theorem Knows.flushWord (h : s.Knows text base) {stop : Nat} (hstop : stop ≤ s.pos) :
    Descent.flushWord text (s.frame.locals s.start) stop =
      ((s.flush stop).map (·.locals s.start)).mapError .fault := by
  have hbetween := h.between h.base_le hstop
  have hstart : (s.frame.locals s.start).start = s.start := rfl
  simp only [Descent.flushWord, flush, hbetween, hstart]
  split
  · -- Nothing stands before the start.
    rename_i hle
    rw [Text.slice_eq_nil text hle]
    rfl
  · split
    · rfl
    · split
      · rfl
      · rename_i hlt _ _
        -- The token ends before the place that is flushed.
        obtain ⟨before, after, hspan, -, -, hmargin⟩ := (text.slice s.start stop).exists_trim
        have hlength := congrArg List.length hspan
        simp only [List.length_append, Text.length_slice] at hlength
        have hend : s.start + (text.slice s.start stop).margin +
            (text.slice s.start stop).trim.length ≤ s.pos := by omega
        rw [fill]
        cases hslot : s.frame.slot with
        | none => simp only [Frame.locals, hslot]; rfl
        | some previous =>
          have hreject := h.reject hend hslot (h.slot previous hslot) s.start
            (s.start + (text.slice s.start stop).margin)
          have hfilled : (s.frame.locals s.start).filled = true := by rw [Frame.locals, hslot]; rfl
          rw [if_pos hfilled, hreject]
          rfl

/-- An argument ends in the descent as in the scanner. -/
theorem Knows.endToken (h : s.Knows text base) {separator : Nat} (hle : separator ≤ s.pos) :
    Descent.endToken text (s.frame.locals s.start) separator =
      ((s.endArgument separator).map (·.1.locals s.start)).mapError .fault := by
  simp only [Descent.endToken, endArgument, h.flushWord hle, bind, Except.bind]
  cases s.flush separator with
  | error fault => rfl
  | ok frame =>
    cases hslot : frame.slot with
    | none => simp [Except.map, Except.mapError, Frame.locals, hslot]
    | some key => simp [Except.map, Except.mapError, Frame.locals, hslot]

/-- A token that ends well in the descent ends so in the scanner, in a list at the same
parenthesis. -/
theorem Knows.exists_of_endToken (h : s.Knows text base) {separator : Nat} {l : Descent.Locals}
    (hle : separator ≤ s.pos)
    (hend : Descent.endToken text (s.frame.locals s.start) separator = .ok l) :
    ∃ frame key, s.endArgument separator = .ok (frame, key) ∧ l = frame.locals s.start ∧
      frame.slot = some key ∧ base ≤ key.offset ∧ frame.paren = s.frame.paren := by
  rw [h.endToken hle] at hend
  cases hargument : s.endArgument separator with
  | error fault =>
    rw [hargument] at hend
    cases hend
  | ok result =>
    obtain ⟨frame, key⟩ := result
    rw [hargument] at hend
    obtain ⟨hflush, hslot⟩ := (endArgument_eq_ok_iff ..).mp hargument
    obtain ⟨hbased, hparen⟩ := h.of_flush hflush
    exact ⟨frame, key, rfl, (Except.ok.inj hend).symm, hslot, hbased key hslot, hparen⟩

/-- A token that does not end well in the descent does not in the scanner. -/
theorem Knows.exists_of_endToken_error (h : s.Knows text base) {separator : Nat}
    {raised : Descent.Raised} (hle : separator ≤ s.pos)
    (hend : Descent.endToken text (s.frame.locals s.start) separator = .error raised) :
    ∃ fault, raised = .fault fault ∧ s.endArgument separator = .error fault := by
  rw [h.endToken hle] at hend
  cases hargument : s.endArgument separator with
  | error fault =>
    rw [hargument] at hend
    exact ⟨fault, (Except.error.inj hend).symm, rfl⟩
  | ok result =>
    rw [hargument] at hend
    cases hend

variable [Machine]

/-- Behind a name a call begins in the scanner if there is room for it. -/
theorem Knows.openCall (h : s.Knows text base) {paren : Nat} {head : Head} (hle : paren ≤ s.pos)
    (hhead : Descent.callHead text s.start paren = .ok head) :
    base ≤ head.offset ∧ s.openCall paren =
      if nestingLimit ≤ s.outer.length then .error ⟨.tooDeep, paren⟩
      else .ok (.reading { s with
        mode := .code, start := s.pos, frame := .empty paren,
        outer := (head, s.frame) :: s.outer }) := by
  simp only [Descent.callHead] at hhead
  simp only [State.openCall, h.between h.base_le hle]
  split at hhead
  · cases hhead
  · rename_i hname
    split at hhead
    · cases hhead
    · rename_i hblank
      obtain rfl := Except.ok.inj hhead
      rw [if_neg hname, if_neg hblank]
      exact ⟨Nat.le_trans h.base_le (Nat.le_add_right _ _), rfl⟩

/-- Behind no name the scanner finds the same fault. -/
theorem Knows.openCall_error (h : s.Knows text base) {paren : Nat} {raised : Descent.Raised}
    (hle : paren ≤ s.pos) (hhead : Descent.callHead text s.start paren = .error raised) :
    ∃ fault, raised = .fault fault ∧ s.openCall paren = .error fault := by
  simp only [Descent.callHead] at hhead
  simp only [State.openCall, h.between h.base_le hle]
  split at hhead
  · rename_i hname
    rw [if_pos hname]
    exact ⟨_, (Except.error.inj hhead).symm, rfl⟩
  · rename_i hname
    split at hhead
    · rename_i hblank
      rw [if_neg hname, if_pos hblank]
      exact ⟨_, (Except.error.inj hhead).symm, rfl⟩
    · cases hhead

/-! ## At the head of the loop -/

/-- The scanner stands where the descent is at the head of its loop. It is outside comments, and
what it remembers is not the first half of a pair. -/
structure Stands (text : Text) (base level : Nat) (s : State) (p : Descent.Cursor)
    (l : Descent.Locals) : Prop extends s.Knows text base where
  inCode : s.mode.inCode = true
  meets : s.mode.Meets (text.drop p.pos)
  pos : s.pos = p.pos
  locals : s.frame.locals s.start = l
  paren : p.opened.head? = some s.frame.paren
  level : s.outer.length = level

/-- What scanning comes to once a list has been left behind its closing parenthesis: the layer, or
what is scanned with the call in its slot. -/
def leaves (text : Text) (base : Nat) (s : State) (args : List Key) (stop : Nat) :
    Except Failure Closed :=
  match s.outer with
  | [] => .ok ⟨args, stop, text.drop stop⟩
  | (head, parent) :: outer =>
    let behind : State := ⟨.code, stop, stop, (text.slice base stop).reverse, parent, outer⟩
    match behind.fill parent
        (.call head.name args head.offset stop (text.slice head.offset stop)) with
    | .error fault => .error ⟨fault, stop⟩
    | .ok frame => { behind with frame }.scan (text.drop stop)

section

variable {level : Nat} {p : Descent.Cursor} {l : Descent.Locals} {c : Char} {rest : Text}

/-- The next turn reads a character of a token. -/
theorem Stands.char (h : Stands text base level s p l) (hdrop : text.drop p.pos = c :: rest)
    (hrest : ∀ d ∈ rest.head?, isPair c d = false) (hc : isDelimiter c = false) :
    ∃ s', Stands text base level s' { p with pos := p.pos + 1 } l ∧
      s'.frame.paren = s.frame.paren ∧ s'.outer = s.outer ∧
      s.scan (text.drop p.pos) = s'.scan (text.drop (p.pos + 1)) := by
  have hdrop' := Descent.drop_succ hdrop
  have hstep : s.step c = .ok (.reading ((s.see c).into (modeAfter c))) := by
    rw [step_code h.inCode (h.meets c (by rw [hdrop]; rfl)), code_of_not_delimiter _ hc]
  have hsee := h.toKnows.see (h.pos ▸ hdrop)
  refine ⟨(s.see c).into (modeAfter c), ⟨hsee.into _, inCode_modeAfter c, fun d hd => ?_,
    congrArg (· + 1) h.pos, h.locals, h.paren, h.level⟩, rfl, rfl, ?_⟩
  · rw [hdrop'] at hd
    rw [State.into, completes_modeAfter]
    exact hrest d hd
  · rw [hdrop, hdrop', scan_cons, hstep]

/-- At a delimiter the scanner reads a character of code, which it has seen. -/
theorem Stands.delimiter (h : Stands text base level s p l) (hdrop : text.drop p.pos = c :: rest)
    (hc : isDelimiter c = true) :
    s.step c = (s.see c).code c ∧ (s.see c).Knows text base ∧ (s.see c).pos = p.pos + 1 ∧
      (s.see c).frame.locals (s.see c).start = l :=
  ⟨step_code h.inCode (s.mode.completes_delimiter hc), h.toKnows.see (h.pos ▸ hdrop),
    congrArg (· + 1) h.pos, h.locals⟩

/-- The next turn reads a comma. -/
theorem Stands.comma {l' : Descent.Locals} (h : Stands text base level s p l)
    (hdrop : text.drop p.pos = ',' :: rest) (hend : Descent.endToken text l p.pos = .ok l') :
    ∃ s', Stands text base level s' { p with pos := p.pos + 1 }
        { l' with start := p.pos + 1, filled := false } ∧
      s'.frame.paren = s.frame.paren ∧ s'.outer = s.outer ∧
      s.scan (text.drop p.pos) = s'.scan (text.drop (p.pos + 1)) := by
  obtain ⟨hstep, hsee, hpos, hlocals⟩ := h.delimiter hdrop rfl
  rw [← hlocals] at hend
  obtain ⟨frame, key, hargument, rfl, hslot, -, hparen⟩ :=
    hsee.exists_of_endToken (by omega) hend
  -- The state ends its argument where the loop does.
  have hseparate : (s.see ',').code ',' = .ok (.reading ((s.see ',').fresh .code
      { frame with done := key :: frame.done, slot := none })) := by
    rw [code, hpos, Nat.add_sub_cancel]
    simp only [separate, hargument]
    rfl
  refine ⟨(s.see ',').fresh .code { frame with done := key :: frame.done, slot := none },
    ⟨hsee.fresh .code (by rintro _ ⟨⟩), rfl, meets_code rfl _, hpos, ?_, ?_, h.level⟩, hparen,
    rfl, ?_⟩
  · simp only [Frame.locals, hslot, fresh, hpos]
    rfl
  · exact h.paren.trans (congrArg some hparen.symm)
  · rw [hdrop, Descent.drop_succ hdrop, scan_cons, hstep, hseparate]

/-- The next turn begins a call. -/
theorem Stands.enter {head : Head} (h : Stands text base level s p l)
    (hdrop : text.drop p.pos = '(' :: rest)
    (hhead : Descent.callHead text l.start p.pos = .ok head) (hlevel : level < nestingLimit) :
    ∃ s', Stands text base (level + 1) s' p.enter (.begin p.enter.pos) ∧
      s'.frame.paren = p.pos ∧ s'.outer = (head, s.frame) :: s.outer ∧
      s.scan (text.drop p.pos) = s'.scan (text.drop p.enter.pos) := by
  obtain ⟨hstep, hsee, hpos, hlocals⟩ := h.delimiter hdrop rfl
  rw [← hlocals] at hhead
  obtain ⟨hbased, hopen⟩ := hsee.openCall (by omega) hhead
  rw [if_neg (Nat.not_le_of_lt (h.level.symm ▸ hlevel))] at hopen
  -- What the loop keeps in its own locals, the state keeps on the stack of outer frames.
  refine ⟨{ s.see '(' with
    mode := .code, start := (s.see '(').pos, frame := .empty p.pos,
    outer := (head, s.frame) :: s.outer }, ⟨⟨hsee.seen, hsee.le_length, ?_, Nat.le_refl _,
      (by rintro _ ⟨⟩), ?_, ?_⟩, rfl, meets_code rfl _, hpos, ?_, rfl, ?_⟩, rfl, rfl, ?_⟩
  · exact Nat.le_trans hsee.base_le hsee.start_le
  · exact List.forall_mem_cons.mpr ⟨hbased, h.heads⟩
  · exact List.forall_mem_cons.mpr ⟨h.slot, h.slots⟩
  · simp only [hpos]
    rfl
  · rw [List.length_cons, h.level]
  · have hcode : (s.see '(').code '(' = ((s.see '(').openCall p.pos).mapError (⟨·, p.pos + 1⟩) := by
      rw [code, hpos, Nat.add_sub_cancel]
    rw [hdrop, scan_cons, hstep, hcode, hopen]
    simp only [Descent.Cursor.enter, Descent.drop_succ hdrop]
    rfl

/-- The next turn would begin a call for which there is no room. -/
theorem Stands.tooDeep {head : Head} (h : Stands text base level s p l)
    (hdrop : text.drop p.pos = '(' :: rest)
    (hhead : Descent.callHead text l.start p.pos = .ok head) (hlevel : nestingLimit ≤ level) :
    s.scan (text.drop p.pos) = .error ⟨⟨.tooDeep, p.pos⟩, p.pos + 1⟩ := by
  obtain ⟨hstep, hsee, hpos, hlocals⟩ := h.delimiter hdrop rfl
  rw [← hlocals] at hhead
  obtain ⟨-, hopen⟩ := hsee.openCall (by omega) hhead
  rw [if_pos (h.level.symm ▸ hlevel)] at hopen
  have hcode : (s.see '(').code '(' = ((s.see '(').openCall p.pos).mapError (⟨·, p.pos + 1⟩) := by
    rw [code, hpos, Nat.add_sub_cancel]
  rw [hdrop, scan_cons, hstep, hcode, hopen]
  rfl

/-- The next turn leaves the list. -/
theorem Stands.leave {l' : Descent.Locals} (h : Stands text base level s p l)
    (hdrop : text.drop p.pos = ')' :: rest) (hend : Descent.endToken text l p.pos = .ok l') :
    s.scan (text.drop p.pos) = s.leaves text base l'.args.reverse (p.pos + 1) := by
  obtain ⟨hstep, hsee, hpos, hlocals⟩ := h.delimiter hdrop rfl
  rw [← hlocals] at hend
  obtain ⟨frame, key, hargument, rfl, hslot, -, -⟩ := hsee.exists_of_endToken (by omega) hend
  have hkeys : (frame.locals (s.see ')').start).args.reverse = frame.keysWith key := by
    rw [Frame.locals, hslot]
    rfl
  have hcode : (s.see ')').code ')' = ((s.see ')').close p.pos).mapError (⟨·, p.pos + 1⟩) := by
    rw [code, hpos, Nat.add_sub_cancel]
  rw [hdrop, scan_cons, hstep, hcode, leaves, hkeys, Descent.drop_succ hdrop, ← hpos, ← hsee.seen]
  simp only [close, hargument, bind, Except.bind]
  have houter : (s.see ')').outer = s.outer := rfl
  cases hcalls : s.outer with
  | nil =>
    simp only [houter, hcalls]
    rfl
  | cons entry outer =>
    obtain ⟨head, parent⟩ := entry
    have hhead : base ≤ head.offset := h.heads (head, parent) (by rw [hcalls]; simp)
    have hcontent := hsee.between hhead (Nat.le_refl _)
    simp only [houter, hcalls, hcontent]
    -- Both fill the slot around the call with the same text at hand.
    cases hparent : parent.slot with
    | none =>
      simp only [fill, hparent]
      rfl
    | some previous =>
      simp only [fill, hparent]
      rfl

/-- The two characters of a pair lead to the state that ends what is pending before them. -/
theorem Stands.second {second : Char} {more : Text} (h : Stands text base level s p l)
    (hdrop : text.drop p.pos = c :: second :: more) (hpair : isPair c second = true) :
    ∃ t : State, t.Knows text base ∧ t.pos = p.pos + 2 ∧ t.frame = s.frame ∧ t.start = s.start ∧
      t.outer = s.outer ∧ s.scan (text.drop p.pos) =
        match t.flush p.pos with
        | .error fault => .error ⟨fault, p.pos⟩
        | .ok frame => (t.fresh (modeAfterPair second) frame).scan more := by
  -- The state has no lookahead: it reads the first half of a pair like any other character.
  have hfirst : s.step c = .ok (.reading ((s.see c).into (modeAfter c))) := by
    rw [step_code h.inCode (h.meets c (by rw [hdrop]; rfl)),
      code_of_not_delimiter _ (isDelimiter_of_isPair hpair)]
  have hhalf := (h.toKnows.see (h.pos ▸ hdrop)).into (modeAfter c)
  have hpos : ((s.see c).into (modeAfter c)).pos = p.pos + 1 := congrArg (· + 1) h.pos
  have hcompletes : ((s.see c).into (modeAfter c)).mode.completes second = true := by
    rw [State.into, completes_modeAfter, hpair]
  have hdrop' := Descent.drop_succ hdrop
  refine ⟨((s.see c).into (modeAfter c)).see second, hhalf.see (hpos.symm ▸ hdrop'),
    congrArg (· + 1) hpos, rfl, rfl, rfl, ?_⟩
  -- With the second half it flushes up to the first one, where the loop's cursor still is.
  have hback : (((s.see c).into (modeAfter c)).see second).pos - 2 = p.pos := by
    rw [show (((s.see c).into (modeAfter c)).see second).pos = p.pos + 2 from
      congrArg (· + 1) hpos, Nat.add_sub_cancel]
  rw [hdrop, scan_cons, hfirst]
  simp only [scan_cons, step_pair hcompletes, skip, hback]
  cases (((s.see c).into (modeAfter c)).see second).flush p.pos with
  | error fault => rfl
  | ok frame => rfl

omit [Machine] in
/-- Where the next token may begin anyway, nothing changes. -/
theorem fresh_eq_self {v : State} (hcode : v.mode = .code) (hstart : v.start = v.pos) :
    v.fresh .code v.frame = v := by
  rw [State.fresh, ← hcode]
  exact congrArg (State.mk v.mode v.pos · v.seen v.frame v.outer) hstart.symm

/-- What a pair begins is read to its end, where the next token may begin, or to the end of the
text. -/
theorem exists_reads_behind {u : State} {second : Char} {a after : Text}
    (hmode : u.mode = modeAfterPair second) (hstart : u.start = u.pos)
    (h : Skipped (c :: second :: a) ∨ after = [] ∧ Descent.Unended (c :: second :: a)) :
    ∃ v, u.Reads a v ∧ v.frame = u.frame ∧ v.outer = u.outer ∧
      v.scan after = (v.fresh .code v.frame).scan after := by
  -- A comment or a continuation that is whole leaves a fresh state; one that is cut off ends the
  -- text.
  rcases h with (hcomment | hcontinued) | ⟨rfl, hunended⟩
  · cases hcomment with
    | block hbody =>
      obtain ⟨v, hreads, hcode, hfresh, hframe, houter⟩ := reads_block hmode hbody
      exact ⟨v, hreads, hframe, houter, by rw [fresh_eq_self hcode hfresh]⟩
    | line hbody =>
      obtain ⟨v, hreads, hcode, hfresh, hframe, houter⟩ := reads_line hmode hbody
      exact ⟨v, hreads, hframe, houter, by rw [fresh_eq_self hcode hfresh]⟩
  · obtain ⟨rfl, rfl, rfl⟩ : c = '\\' ∧ second = '\n' ∧ a = [] := by simpa using hcontinued
    exact ⟨u, .nil u, rfl, rfl, by rw [fresh_eq_self hmode hstart]⟩
  · cases hunended with
    | block hbody =>
      obtain ⟨v, hreads, -, hframe, houter⟩ := reads_block_body (.inl ⟨hmode, hbody⟩)
      exact ⟨v, hreads, hframe, houter, rfl⟩
    | line hbody =>
      obtain ⟨v, hreads, -, hframe, houter⟩ := reads_line_body hmode hbody
      exact ⟨v, hreads, hframe, houter, rfl⟩

/-- What is known goes on to hold behind a text that leaves the lists alone. -/
theorem Knows.of_reads {v : State} {a after : Text} (h : s.Knows text base) (hreads : s.Reads a v)
    (hdrop : text.drop s.pos = a ++ after) (hframe : v.frame = s.frame)
    (houter : v.outer = s.outer) :
    (v.fresh .code v.frame).Knows text base := by
  obtain ⟨hseen, hpos⟩ := hreads.seen
  have hlength := congrArg List.length hdrop
  rw [List.length_drop, List.length_append] at hlength
  have hlast : text.slice s.pos v.pos = a := by
    rw [Text.slice, hdrop, hpos, Nat.add_sub_cancel_left, List.take_left]
  have hle : s.pos ≤ v.pos := by omega
  have hsplit := text.slice_append_slice (Nat.le_trans h.base_le h.start_le) hle
  have hseen' : v.seen = (text.slice base v.pos).reverse := by
    rw [hseen, h.seen, ← hsplit, hlast, List.reverse_append]
  have hend : v.pos ≤ text.length := by
    have := h.le_length
    omega
  exact ⟨hseen', hend, Nat.le_trans h.base_le (Nat.le_trans h.start_le hle), Nat.le_refl _,
    hframe ▸ h.slot, houter ▸ h.heads, houter ▸ h.slots⟩

/-- The next turn passes a pair and what it begins. -/
theorem Stands.pair {second : Char} {more : Text} {l' : Descent.Locals}
    (h : Stands text base level s p l) (hdrop : text.drop p.pos = c :: second :: more)
    (hpair : isPair c second = true) (hflush : Descent.flushWord text l p.pos = .ok l') :
    ∃ s', Stands text base level s' { p with pos := Descent.behindPair text p.pos second }
        { l' with start := Descent.behindPair text p.pos second } ∧
      s'.frame.paren = s.frame.paren ∧ s'.outer = s.outer ∧
      s.scan (text.drop p.pos) = s'.scan (text.drop (Descent.behindPair text p.pos second)) := by
  obtain ⟨t, ht, hpos, hframe, hstart, houter, hscan⟩ := h.second hdrop hpair
  have hlocals : l = t.frame.locals t.start := by rw [hframe, hstart, h.locals]
  rw [hlocals, ht.flushWord (by omega)] at hflush
  cases hflushed : t.flush p.pos with
  | error fault =>
    rw [hflushed] at hflush
    cases hflush
  | ok frame =>
    rw [hflushed] at hflush hscan
    obtain rfl := Except.ok.inj hflush
    obtain ⟨hslot, hparen⟩ := ht.of_flush hflushed
    have hmore : text.drop (p.pos + 2) = more := Descent.drop_succ (Descent.drop_succ hdrop)
    -- `a` is what the loop skips behind the pair, and what the state reads in a comment's mode.
    obtain ⟨a, after, hmore', hbehind, hkind⟩ := Descent.behindPair_cases hdrop hpair
    let u := t.fresh (modeAfterPair second) frame
    have hu : u.Knows text base := ht.fresh _ hslot
    obtain ⟨v, hreads, hvframe, hvouter, hvscan⟩ :=
      @exists_reads_behind _ c u second a after rfl rfl hkind
    -- Both come to the same place.
    have hvpos : v.pos = Descent.behindPair text p.pos second := by
      rw [hreads.seen.2, hbehind, ← hpos]
      rfl
    have hafter : text.drop (Descent.behindPair text p.pos second) = after := by
      rw [hbehind, ← List.drop_drop, hmore, hmore', List.drop_left]
    have hdropu : text.drop u.pos = a ++ after := by
      show text.drop t.pos = a ++ after
      rw [hpos, hmore, hmore']
    refine ⟨v.fresh .code v.frame, ⟨hu.of_reads hreads hdropu hvframe hvouter, rfl,
      meets_code rfl _, hvpos, ?_, ?_, ?_⟩, ?_, ?_, ?_⟩
    · rw [← hvpos]
      show v.frame.locals v.pos = _
      rw [hvframe]
      rfl
    · show p.opened.head? = some v.frame.paren
      rw [hvframe, h.paren, ← hframe, ← hparen]
      rfl
    · show v.outer.length = level
      rw [hvouter, ← h.level, ← houter]
      rfl
    · show v.frame.paren = s.frame.paren
      rw [hvframe, ← hframe, ← hparen]
      rfl
    · exact hvouter.trans houter
    · rw [hscan, hmore', hafter]
      exact (hreads.scan after).trans hvscan

/-- The next turn finds a fault in what is pending before a pair. -/
theorem Stands.pair_error {second : Char} {more : Text} {raised : Descent.Raised}
    (h : Stands text base level s p l) (hdrop : text.drop p.pos = c :: second :: more)
    (hpair : isPair c second = true) (hflush : Descent.flushWord text l p.pos = .error raised) :
    ∃ fault, raised = .fault fault ∧ s.scan (text.drop p.pos) = .error ⟨fault, p.pos⟩ := by
  obtain ⟨t, ht, hpos, hframe, hstart, -, hscan⟩ := h.second hdrop hpair
  rw [← h.locals, ← hframe, ← hstart, ht.flushWord (by omega)] at hflush
  cases hflushed : t.flush p.pos with
  | error fault =>
    rw [hflushed] at hflush hscan
    exact ⟨fault, (Except.error.inj hflush).symm, hscan⟩
  | ok frame =>
    rw [hflushed] at hflush
    cases hflush

/-- The next turn finds a fault in the argument before a comma or a closing parenthesis. -/
theorem Stands.separator_error {raised : Descent.Raised} (h : Stands text base level s p l)
    (hdrop : text.drop p.pos = c :: rest) (hc : c = ',' ∨ c = ')')
    (hend : Descent.endToken text l p.pos = .error raised) :
    ∃ fault, raised = .fault fault ∧ s.scan (text.drop p.pos) = .error ⟨fault, p.pos + 1⟩ := by
  have hdelimiter : isDelimiter c = true := by rcases hc with rfl | rfl <;> rfl
  obtain ⟨hstep, hsee, hpos, hlocals⟩ := h.delimiter hdrop hdelimiter
  rw [← hlocals] at hend
  obtain ⟨fault, rfl, hargument⟩ := hsee.exists_of_endToken_error (by omega) hend
  refine ⟨fault, rfl, ?_⟩
  have hcode : (s.see c).code c = .error ⟨fault, p.pos + 1⟩ := by
    rcases hc with rfl | rfl
    · rw [code, hpos, Nat.add_sub_cancel]
      simp only [separate, hargument]
      rfl
    · rw [code, hpos, Nat.add_sub_cancel]
      simp only [close, hargument]
      rfl
  rw [hdrop, scan_cons, hstep, hcode]

/-- The next turn finds a fault in the name before an opening parenthesis. -/
theorem Stands.name_error {raised : Descent.Raised} (h : Stands text base level s p l)
    (hdrop : text.drop p.pos = '(' :: rest)
    (hhead : Descent.callHead text l.start p.pos = .error raised) :
    ∃ fault, raised = .fault fault ∧ s.scan (text.drop p.pos) = .error ⟨fault, p.pos + 1⟩ := by
  obtain ⟨hstep, hsee, hpos, hlocals⟩ := h.delimiter hdrop rfl
  rw [← hlocals] at hhead
  obtain ⟨fault, rfl, hopen⟩ := hsee.openCall_error (by omega) hhead
  refine ⟨fault, rfl, ?_⟩
  have hcode : (s.see '(').code '(' = .error ⟨fault, p.pos + 1⟩ := by
    rw [code, hpos, Nat.add_sub_cancel, hopen]
    rfl
  rw [hdrop, scan_cons, hstep, hcode]

/-- The next turn finds a fault. -/
theorem Stands.stopped {raised : Descent.Raised} {pos : Nat} (h : Stands text base level s p l)
    (hdrop : text.drop p.pos = c :: rest)
    (hturn : Descent.turn text p.pos l c rest = .error (raised, pos)) :
    ∃ fault, raised = .fault fault ∧ s.scan (text.drop p.pos) = .error ⟨fault, pos⟩ := by
  cases Descent.stops_of_turn hturn with
  | pair hrest hpair hflush => exact h.pair_error (hrest ▸ hdrop) hpair hflush
  | separator hc hend => exact h.separator_error hdrop hc hend
  | name hc hhead => exact h.name_error (hc ▸ hdrop) hhead

end

end State

variable [Machine]

namespace Descent

open State

variable {text : Text} {base level : Nat} {s : State} {p : Cursor} {l : Locals}

/-- The scanner comes to what reading a list of the descent comes to: to the same fault, to the
missing parenthesis if the list has been left with the text, or to what follows the list. -/
def Agrees (text : Text) (base : Nat) (s : State) (depth : Int)
    (scanned : Except Failure State.Closed) : Outcome → Prop
  | .error stopped => ∃ failure, report stopped = some failure ∧ scanned = .error failure
  | .ok (args, q) =>
    (q.depth = depth → scanned = .error ⟨⟨.unclosed, s.frame.paren⟩, q.pos⟩) ∧
      (q.depth = depth - 1 → scanned = s.leaves text base args q.pos)

/-- A turn that changes neither the list nor those around it changes nothing for what comes. -/
theorem Agrees.of_scan {s' : State} {depth : Int} {rest rest' : Text} {outcome : Outcome}
    (h : Agrees text base s' depth (s'.scan rest') outcome)
    (hparen : s'.frame.paren = s.frame.paren) (houter : s'.outer = s.outer)
    (hscan : s.scan rest = s'.scan rest') : Agrees text base s depth (s.scan rest) outcome := by
  match outcome with
  | .error stopped => exact hscan ▸ h
  | .ok (args, q) =>
    obtain ⟨hended, hclosed⟩ := h
    rw [Agrees, hscan, ← hparen, leaves, ← houter]
    exact ⟨hended, hclosed⟩

section

variable {q : Cursor} {head : Head} {params : List Key} {s' : State}

omit [Machine] in
/-- The list of a call is left further on. -/
theorem pos_le_of_left (h : Stands text base level s p l) (hleft : Left text p.enter q) :
    s.pos ≤ q.pos := by
  have hle : p.pos + 1 ≤ q.pos := hleft.le
  rw [h.pos]
  omega

/-- Behind a call that is taken for an argument the scanner goes on with the call in its slot. -/
theorem Agrees.of_resume_ok {scanned : Except Failure State.Closed} {q' : Cursor} {l' : Locals}
    (h : Agrees text base s' p.enter.depth scanned (.ok (params, q)))
    (hstands : Stands text base level s p l) (houter : s'.outer = (head, s.frame) :: s.outer)
    (hhead : base ≤ head.offset) (hleft : Left text p.enter q) (hlength : p.pos < text.length)
    (hresume : resume text p.enter.depth p.pos l head params q = .ok (q', l')) :
    ∃ t, Stands text base level t q' l' ∧ t.frame.paren = s.frame.paren ∧ t.outer = s.outer ∧
      scanned = t.scan (text.drop q'.pos) := by
  obtain ⟨rfl, hdepth, hfilled, rfl⟩ := resume_eq_ok hresume
  have hslot : s.frame.slot = none := by
    rw [← hstands.locals] at hfilled
    simpa [Frame.locals] using hfilled
  let call : Key := .call head.name params head.offset q.pos (text.slice head.offset q.pos)
  have hcall : ∀ key ∈ some call, base ≤ key.offset := by
    rintro _ ⟨⟩
    exact hhead
  have hle := pos_le_of_left hstands hleft
  -- The call fills the slot of the frame that was outermost while its arguments were read.
  refine ⟨⟨.code, q.pos, q.pos, (text.slice base q.pos).reverse,
    { s.frame with slot := some call }, s.outer⟩,
    ⟨hstands.toKnows.behind hle (hleft.le_length hlength) hcall, rfl, meets_code rfl _, rfl, ?_,
      ?_, hstands.level⟩, rfl, rfl, ?_⟩
  · rw [← hstands.locals, Frame.locals, Frame.locals, hslot]
    rfl
  · rw [hleft.opened, Cursor.enter, List.tail_cons, hstands.paren]
  · rw [h.2 hdepth]
    simp only [leaves, houter, State.fill, hslot]
    rfl

/-- Where a call is no argument the scanner finds the same fault: the parenthesis has not been
closed, or the slot is filled. -/
theorem Agrees.of_resume_error {scanned : Except Failure State.Closed} {stopped : Raised × Cursor}
    (h : Agrees text base s' p.enter.depth scanned (.ok (params, q)))
    (hstands : Stands text base level s p l) (hparen : s'.frame.paren = p.pos)
    (houter : s'.outer = (head, s.frame) :: s.outer) (hleft : Left text p.enter q)
    (hlength : p.pos < text.length)
    (hresume : resume text p.enter.depth p.pos l head params q = .error stopped) :
    ∃ failure, report stopped = some failure ∧ scanned = .error failure := by
  obtain ⟨hended, hclosed⟩ := h
  rcases resume_eq_error hleft.opened hresume with ⟨hopen, rfl⟩ | ⟨hdepth, hfilled, rfl⟩
  · obtain ⟨hdepth, -⟩ | ⟨hdepth, -⟩ := hleft.ends
    · refine ⟨_, rfl, (hended hdepth).trans ?_⟩
      rw [hparen]
    · exact absurd hdepth hopen
  · obtain ⟨previous, hslot⟩ : ∃ previous, s.frame.slot = some previous := by
      rw [← hstands.locals] at hfilled
      exact Option.isSome_iff_exists.mp hfilled
    have hle := pos_le_of_left hstands hleft
    have hbehind := hstands.toKnows.behind hle (hleft.le_length hlength) hstands.slot
    have hreject := hbehind.reject (Nat.le_refl q.pos) hslot (hstands.slot previous hslot)
      s.start head.offset
    rw [hstands.locals] at hreject
    refine ⟨_, by rw [hreject]; rfl, ?_⟩
    rw [hclosed hdepth]
    simp only [leaves, houter, State.fill, hslot]
    rfl

end

/-- Scanning comes to what reading a list comes to. -/
theorem Reads.scan {outcome : Outcome} (h : Reads text level p l outcome)
    (hstands : Stands text base level s p l) :
    Agrees text base s p.depth (s.scan (text.drop p.pos)) outcome := by
  induction h generalizing s with
  | @ended level p l hdrop =>
    refine ⟨fun _ => ?_, fun hdepth => absurd hdepth (by omega)⟩
    rw [hdrop, ← hstands.pos]
    rfl
  | stopped hdrop hturn =>
    obtain ⟨fault, rfl, hscan⟩ := hstands.stopped hdrop hturn
    exact ⟨_, rfl, hscan⟩
  | next hdrop hturn _ ih =>
    cases turns_of_turn hturn with
    | pair hrest hpair hflush =>
      obtain ⟨s', hstands', hparen, houter, hscan⟩ := hstands.pair (hrest ▸ hdrop) hpair hflush
      exact (ih hstands').of_scan hparen houter hscan
    | char hrest hc =>
      obtain ⟨s', hstands', hparen, houter, hscan⟩ := hstands.char hdrop hrest hc
      exact (ih hstands').of_scan hparen houter hscan
  | comma hdrop hturn _ ih =>
    cases turns_of_turn hturn with
    | comma hc hend =>
      obtain ⟨s', hstands', hparen, houter, hscan⟩ := hstands.comma (hc ▸ hdrop) hend
      exact (ih hstands').of_scan hparen houter hscan
  | leave hdrop hturn =>
    cases turns_of_turn hturn with
    | leave hc hend =>
      refine ⟨fun hdepth => absurd hdepth (by simp only; omega), fun _ => ?_⟩
      exact hstands.leave (hc ▸ hdrop) hend
  | tooDeep hdrop hturn hlevel =>
    cases turns_of_turn hturn with
    | enter hc hhead => exact ⟨_, rfl, hstands.tooDeep (hc ▸ hdrop) hhead hlevel⟩
  | inner hdrop hturn hlevel _ ih =>
    cases turns_of_turn hturn with
    | enter hc hhead =>
      obtain ⟨s', hstands', -, -, hscan⟩ := hstands.enter (hc ▸ hdrop) hhead hlevel
      exact hscan ▸ ih hstands'
  | refused hdrop hturn hlevel hin hresume ih =>
    cases turns_of_turn hturn with
    | enter hc hhead =>
      obtain ⟨s', hstands', hparen, houter, hscan⟩ := hstands.enter (hc ▸ hdrop) hhead hlevel
      have hleft := hin.left _ _ rfl
      rw [hscan]
      exact (ih hstands').of_resume_error hstands hparen houter hleft (lt_length_of_drop hdrop)
        hresume
  | @call _ p q q' _ _ _ _ head _ _ hdrop hturn hlevel hin hresume _ ihin ih =>
    cases turns_of_turn hturn with
    | enter hc hhead =>
      obtain ⟨s', hstands', -, houter, hscan⟩ := hstands.enter (hc ▸ hdrop) hhead hlevel
      have hbased := hstands'.heads (head, s.frame) (by rw [houter]; simp)
      obtain ⟨t, ht, hparen, houter', hbehind⟩ := (ihin hstands').of_resume_ok hstands houter
        hbased (hin.left _ _ rfl) (lt_length_of_drop hdrop) hresume
      -- The list of the call has lowered the count that the call has raised.
      have hdepth : q'.depth = p.depth := by
        obtain ⟨rfl, hdepth, -, -⟩ := resume_eq_ok hresume
        simp only [hdepth, Cursor.enter]
        omega
      rw [← hdepth]
      exact (ih ht).of_scan hparen houter' (hscan.trans hbehind)

/-! ## Layers -/

/-- What reading a layer comes to, without the count and the stack. -/
def scanned (text : Text) (outcome : Except (Option Failure × Cursor) (List Key × Cursor)) :
    Except (Option Failure) State.Closed :=
  match outcome with
  | .error (failure, _) => .error failure
  | .ok (keys, q) => .ok ⟨keys, q.pos, text.drop q.pos⟩

/-- A layer is read to the same keys, or to the same fault. -/
theorem layer_eq_scan (text : Text) (p : Cursor) {paren : Nat} (h : paren < text.length) :
    scanned text (layer text p paren) =
      ((State.initial paren).scan (text.drop (paren + 1))).mapError some := by
  -- The loop begins where the scanner does, at depth one with an empty list.
  have hstands : Stands text (paren + 1) 0 (.initial paren) (p.atLayer paren)
      (.begin (paren + 1)) :=
    ⟨⟨by simp [State.initial, Text.slice_eq_nil], h, Nat.le_refl _, Nat.le_refl _,
      (by rintro _ ⟨⟩), (by rintro _ ⟨⟩), (by rintro _ ⟨⟩)⟩, rfl,
      meets_code rfl _, rfl, rfl, rfl, rfl⟩
  have hreads := reads_read text 0 (p.atLayer paren) (.begin (paren + 1))
  have hagrees := hreads.scan hstands
  rw [layer]
  cases hread : read text 0 (p.atLayer paren) (.begin (paren + 1)) with
  | error stopped =>
    rw [hread] at hagrees
    obtain ⟨failure, hreport, hscan⟩ := hagrees
    simp only [scanned, hreport]
    exact (congrArg (Except.mapError some) hscan).symm
  | ok result =>
    obtain ⟨keys, q⟩ := result
    rw [hread] at hagrees hreads
    obtain ⟨hended, hclosed⟩ := hagrees
    rcases (hreads.left keys q rfl).ends with ⟨hdepth, -⟩ | ⟨hdepth, -⟩
    · -- The text has ended before the layer.
      have hopen : q.depth ≠ 0 := by simp [hdepth, p.atLayer_eq]
      have hscan := hended hdepth
      simp only [if_pos hopen]
      exact (congrArg (Except.mapError some) hscan).symm
    · have hnone : ¬ q.depth ≠ 0 := by simp [hdepth, p.atLayer_eq]
      have hscan := hclosed hdepth
      simp only [if_neg hnone]
      exact (congrArg (Except.mapError some) hscan).symm

/-- Where reading a layer stops with a fault to be told, the cursor was left. -/
theorem cursor_of_layer {text : Text} {p q : Cursor} {paren : Nat} {failure : Failure}
    (h : layer text p paren = .error (some failure, q)) : failure.cursor = q.pos := by
  unfold layer at h
  split at h
  · obtain ⟨hreport, rfl⟩ := Prod.mk.inj (Except.error.inj h)
    exact cursor_of_report hreport
  · split at h
    · obtain ⟨hfailure, rfl⟩ := Prod.mk.inj (Except.error.inj h)
      obtain rfl := Option.some.inj hfailure
      rfl
    · cases h

/-- Layers that were read are those of a sweep, up to the same fault, with the cursor where the
sweep has come to. -/
structure Layers.Sweeps (layers : Layers) (sweep : Sweep) (pos : Nat) : Prop where
  found : layers.found = sweep.found
  stopped : layers.stopped = sweep.failure.map some
  cursor : layers.cursor.pos = sweep.cursor pos

/-- From any cursor on, whatever its count and its stack, the layers of a text are read as a sweep
from its offset on reads them. -/
theorem layers_eq_sweep (opener text : Text) (p : Cursor) :
    (layers opener text p).Sweeps (sweep opener p.pos (text.drop p.pos)) p.pos := by
  -- By induction on what is left of the text behind the cursor.
  induction hleft : text.length - p.pos using Nat.strong_induction_on generalizing p with
  | _ left ih =>
    subst hleft
    rw [layers]
    split
    · rename_i hseek
      rw [sweep_none hseek]
      exact ⟨rfl, rfl, rfl⟩
    · rename_i start body hseek
      obtain ⟨gap, hdrop, hstart, -⟩ := (seek_eq_some_iff ..).mp hseek
      -- The body of the layer is what is behind the marker.
      have hlength := congrArg List.length hdrop
      simp only [marker, List.length_append, List.length_drop, List.length_singleton] at hlength
      have hbody : text.drop (start + opener.length + 1) = body := by
        have hsum : start + opener.length + 1 = p.pos + (gap ++ marker opener).length := by
          simp only [marker, List.length_append, List.length_singleton]
          omega
        rw [hsum, ← List.drop_drop, hdrop, List.drop_left]
      have hscan := layer_eq_scan text p (show start + opener.length < text.length by omega)
      rw [hbody] at hscan
      split
      · rename_i failure q hlayer
        rw [hlayer, scanned] at hscan
        cases hsweep : (State.initial (start + opener.length)).scan body with
        | ok closed =>
          rw [hsweep] at hscan
          cases hscan
        | error stopped =>
          rw [hsweep] at hscan
          obtain rfl := Except.error.inj hscan
          rw [sweep_error hseek hsweep]
          exact ⟨rfl, rfl, (cursor_of_layer hlayer).symm⟩
      · rename_i keys q hlayer
        rw [hlayer, scanned] at hscan
        cases hsweep : (State.initial (start + opener.length)).scan body with
        | error stopped =>
          rw [hsweep] at hscan
          cases hscan
        | ok closed =>
          rw [hsweep] at hscan
          obtain rfl := Except.ok.inj hscan
          have hlt := lt_pos_of_layer hlayer
          have hlater := ih (text.length - q.pos) (by omega) q rfl
          rw [sweep_ok hseek hsweep]
          refine ⟨?_, hlater.stopped, ?_⟩
          · simp only [hlater.found]
          · rw [Sweep.cursor_cons]
            exact hlater.cursor

end Descent

end Keymap
