import Keymap.Proofs.Grammar
import Keymap.Proofs.Scan.Step

/-!
# What has been scanned

At every moment the scanner knows a part of a tree of the grammar: for each list of arguments that
is open, the arguments before the last separator and what is read of the one after it. The
invariant `State.Tracks` says so. It ties the frames of the scanner to the text that they have
read, character by character, and to the text that is still to come, because only this decides
where a word ends. Steps preserve it, and the step that closes the layer completes the tree.

## Key results

- `State.Tracks.step` — every step preserves the invariant
- `State.Tracks.closed` — the last step completes arguments that fit the grammar
- `State.scan_sound` — a layer that is scanned is derived by the grammar
-/

namespace Keymap

/-! ## Open slots -/

/-- What is read of an argument makes its slot. The argument begins at `pos`, and `rest` is the
text still to come. -/
inductive SlotCovers (pos : Nat) (rest : Text) : Text → Option Key → Prop where
  | trivia {read : Text} : Trivia read → SlotCovers pos rest read none
  | token {before after : Text} {token : Token} : Trivia before → token.Fits (after ++ rest) →
      Trivia after →
      SlotCovers pos rest (before ++ token.text ++ after) (some (token.key (pos + before.length)))

/-- Trivia that are read next change nothing. -/
theorem SlotCovers.append {pos : Nat} {trivia rest read : Text} {slot : Option Key}
    (h : SlotCovers pos (trivia ++ rest) read slot) (htrivia : Trivia trivia) :
    SlotCovers pos rest (read ++ trivia) slot := by
  cases h with
  | trivia hread => exact .trivia (hread.append htrivia)
  | @token before after token hbefore hfits hafter =>
    rw [← List.append_assoc] at hfits
    rw [List.append_assoc]
    exact .token hbefore hfits (hafter.append htrivia)

namespace Frame

/-- What is read of a list of arguments, from its parenthesis on, makes its frame. Each of its keys
leaves room for so many calls around it. -/
structure Covers (frame : Frame) (room : Nat) (read rest : Text) : Prop where
  parts : ∃ (args : ArgumentList) (current : Text), read = args.leading ++ current ∧ args.Fit ∧
    frame.done.reverse = args.keys (frame.paren + 1) ∧
    SlotCovers (frame.paren + 1 + args.leading.length) rest current frame.slot
  done_le : ∀ key ∈ frame.done, key.depth ≤ room
  slot_le : ∀ key ∈ frame.slot, key.depth ≤ room

variable {frame : Frame} {room : Nat} {read rest : Text}

/-- Nothing is read right behind a parenthesis. -/
theorem covers_empty (paren room : Nat) (rest : Text) : (empty paren).Covers room [] rest where
  parts := ⟨[], [], rfl, by simp, by simp [empty], .trivia .nil⟩
  done_le _ h := nomatch h
  slot_le _ h := nomatch h

/-- Trivia that are read next change nothing. -/
theorem Covers.append {trivia : Text} (h : frame.Covers room read (trivia ++ rest))
    (htrivia : Trivia trivia) : frame.Covers room (read ++ trivia) rest where
  parts := by
    obtain ⟨args, current, hread, hfit, hdone, hslot⟩ := h.parts
    exact ⟨args, current ++ trivia, by rw [hread, List.append_assoc], hfit, hdone,
      hslot.append htrivia⟩
  done_le := h.done_le
  slot_le := h.slot_le

/-- A token behind trivia fills the slot. -/
theorem Covers.fill {before after : Text} {token : Token}
    (h : frame.Covers room read (before ++ token.text ++ after ++ rest))
    (hslot : frame.slot = none) (hbefore : Trivia before) (hfits : token.Fits (after ++ rest))
    (hafter : Trivia after)
    (hdepth : (token.key (frame.paren + 1 + read.length + before.length)).depth ≤ room) :
    Covers { frame with
      slot := some (token.key (frame.paren + 1 + read.length + before.length)) }
      room (read ++ (before ++ token.text ++ after)) rest where
  parts := by
    obtain ⟨args, current, hread, hfit, hdone, hcurrent⟩ := h.parts
    -- The slot is open, so only trivia have been read of the argument.
    rw [hslot] at hcurrent
    cases hcurrent with
    | trivia hcurrent =>
      refine ⟨args, current ++ before ++ token.text ++ after, ?_, hfit, hdone, ?_⟩
      · rw [hread]
        simp only [List.append_assoc]
      · have hpos : frame.paren + 1 + read.length + before.length =
            frame.paren + 1 + args.leading.length + (current ++ before).length := by
          rw [hread]
          simp only [List.length_append]
          omega
        rw [hpos]
        exact .token (hcurrent.append hbefore) hfits hafter
  done_le := h.done_le
  slot_le key hkey := by
    obtain rfl : _ = key := by simpa using hkey
    exact hdepth

/-- A plain text that ends where no word goes on is read as the scanner takes it. -/
theorem Covers.takes {span : Text} {frame' : Frame}
    (h : frame.Covers room read (span ++ rest)) (hplain : span.Plain)
    (hlast : ∀ c ∈ span.getLast?, ∀ d ∈ rest.head?, isPair c d = false)
    (hrest : Text.word rest = [])
    (htakes : frame.Takes (frame.paren + 1 + read.length) span frame') :
    frame'.Covers room (read ++ span) rest := by
  cases htakes with
  | blank hblank => exact h.append (.of_allBlank hblank)
  | @word before w after hspan hbefore hafter hne hw hslot =>
    -- The word cannot go on behind the blanks after it.
    have hword : Text.word (w ++ (after ++ rest)) = w := by
      rw [hspan] at hplain hlast
      exact Text.word_append_of_plain_span hplain hw hafter hlast hrest
    rw [hspan] at h ⊢
    exact @fill frame room read rest before after (.word w) h hslot (.of_allBlank hbefore)
      ⟨hne, hword⟩ (.of_allBlank hafter) (by simp [Token.key, Node.depth])

/-- A delimiter behind a filled slot completes an argument. -/
private theorem Covers.complete {d : Char} {key : Key} (h : frame.Covers room read (d :: rest))
    (hd : isDelimiter d = true) (hslot : frame.slot = some key) :
    ∃ (args : ArgumentList) (arg : Argument Token), read = args.leading ++ arg.text ∧
      args.Fit ∧ arg.Fits ∧ frame.done.reverse = args.keys (frame.paren + 1) ∧
      key = arg.token.key (frame.paren + 1 + args.leading.length + arg.before.length) := by
  obtain ⟨args, current, hread, hfit, hdone, hcurrent⟩ := h.parts
  -- The slot is filled by a token with trivia behind it, which the delimiter ends.
  rw [hslot] at hcurrent
  cases hcurrent with
  | @token before after token hbefore hfits hafter =>
    rw [Token.fits_append rest hafter hd] at hfits
    exact ⟨args, ⟨before, token, after⟩, hread, hfit, ⟨hbefore, hfits, hafter⟩, hdone, rfl⟩

/-- A comma behind a filled slot opens the next one. -/
theorem Covers.comma {key : Key} (h : frame.Covers room read (',' :: rest))
    (hslot : frame.slot = some key) :
    Covers { frame with done := key :: frame.done, slot := none } room (read ++ [',']) rest where
  parts := by
    obtain ⟨args, arg, hread, hfit, hfits, hdone, hkey⟩ := h.complete rfl hslot
    refine ⟨args ++ [arg], [], ?_, by simp [hfit, hfits], ?_, .trivia .nil⟩
    · rw [hread]
      simp
    · rw [ArgumentList.keys_append, ← hdone, hkey, ArgumentList.keys_cons, ArgumentList.keys_nil,
        List.reverse_cons]
  done_le key' hmem := by
    rcases List.mem_cons.mp hmem with rfl | hmem
    · exact h.slot_le key' (by simp [hslot])
    · exact h.done_le key' hmem
  slot_le _ h := nomatch h

/-- A closing parenthesis behind a filled slot completes the arguments. -/
theorem Covers.close {key : Key} (h : frame.Covers room read (')' :: rest))
    (hslot : frame.slot = some key) :
    ∃ args : ArgumentList, args ≠ [] ∧ args.Fit ∧ args.text = read ++ [')'] ∧
      frame.keysWith key = args.keys (frame.paren + 1) ∧
      Node.depthAll (frame.keysWith key) ≤ room := by
  obtain ⟨args, arg, hread, hfit, hfits, hdone, hkey⟩ := h.complete rfl hslot
  refine ⟨args ++ [arg], by simp, by simp [hfit, hfits], ?_, ?_, ?_⟩
  · rw [ArgumentList.text_append args (by simp), hread, ArgumentList.text_cons,
      ArgumentList.text_nil, List.append_assoc]
    rfl
  · rw [ArgumentList.keys_append, ← hdone, hkey, ArgumentList.keys_cons, ArgumentList.keys_nil,
      keysWith, List.reverse_cons]
  · -- Each key was within the room when it was read.
    rw [Node.depthAll_le_iff]
    intro key' hmem
    rcases List.mem_cons.mp (List.mem_reverse.mp hmem) with rfl | hmem
    · exact h.slot_le key' (by simp [hslot])
    · exact h.done_le key' hmem

end Frame

/-! ## Open lists of arguments -/

variable [Machine]

/-- What is read since the parenthesis of the layer makes the frames that are open. It begins at
the offset `base`, `room` calls may be opened yet, and `rest` is the text still to come. -/
inductive Stack (base : Nat) : Nat → List (Head × Frame) → Frame → Text → Text → Prop where
  | layer {frame : Frame} {read rest : Text} : frame.paren + 1 = base →
      frame.Covers nestingLimit read rest → Stack base nestingLimit [] frame read rest
  | call {room : Nat} {outer : List (Head × Frame)} {parent frame : Frame}
      {before name blanks read rest : Text} :
      Stack base (room + 1) outer parent before (name ++ blanks ++ '(' :: read ++ rest) →
      name ≠ [] → Text.word (name ++ blanks) = name → blanks.AllBlank →
      frame.paren = base + before.length + name.length + blanks.length →
      frame.Covers room read rest →
      Stack base room ((⟨base + before.length, name⟩, parent) :: outer) frame
        (before ++ (name ++ blanks ++ '(' :: read)) rest

namespace Stack

variable {base room : Nat} {outer : List (Head × Frame)} {frame frame' : Frame}
  {read next rest : Text}

/-- Each open call takes up room. -/
theorem room_add_length (h : Stack base room outer frame read rest) :
    room + outer.length = nestingLimit := by
  induction h with
  | layer => rfl
  | call _ _ _ _ _ _ ih =>
    rw [List.length_cons]
    omega

/-- What is read next changes the innermost frame only. -/
theorem replace (h : Stack base room outer frame read (next ++ rest))
    (hparen : frame'.paren = frame.paren)
    (hcovers : ∀ inner, frame.paren + 1 + inner.length = base + read.length →
      frame.Covers room inner (next ++ rest) → frame'.Covers room (inner ++ next) rest) :
    Stack base room outer frame' (read ++ next) rest := by
  cases h with
  | layer hbase hframe =>
    exact .layer (by rw [hparen, hbase]) (hcovers read (by rw [hbase]) hframe)
  | @call _ outer parent _ before name blanks inner _ hparent hne hname hblanks hpos hframe =>
    have hlength : frame.paren + 1 + inner.length =
        base + (before ++ (name ++ blanks ++ '(' :: inner)).length := by
      simp only [List.length_append, List.length_cons]
      omega
    have hread : before ++ (name ++ blanks ++ '(' :: inner) ++ next =
        before ++ (name ++ blanks ++ '(' :: (inner ++ next)) := by simp
    rw [hread]
    refine .call ?_ hne hname hblanks (hparen.trans hpos) (hcovers inner hlength hframe)
    simpa using hparent

/-- Trivia that are read next change nothing. -/
theorem append (h : Stack base room outer frame read (next ++ rest)) (hnext : Trivia next) :
    Stack base room outer frame (read ++ next) rest :=
  h.replace rfl fun _ _ hframe => hframe.append hnext

/-- A plain text that ends where no word goes on is read as the scanner takes it. -/
theorem takes (h : Stack base room outer frame read (next ++ rest)) (hplain : next.Plain)
    (hlast : ∀ c ∈ next.getLast?, ∀ d ∈ rest.head?, isPair c d = false)
    (hrest : Text.word rest = [])
    (htakes : frame.Takes (base + read.length) next frame') :
    Stack base room outer frame' (read ++ next) rest := by
  have hparen : frame'.paren = frame.paren := by
    cases htakes <;> rfl
  apply h.replace hparen
  intro inner hlength hframe
  apply hframe.takes hplain hlast hrest
  rwa [hlength]

/-- A comma behind a filled slot opens the next one. -/
theorem comma {key : Key} (h : Stack base room outer frame read (',' :: rest))
    (hslot : frame.slot = some key) :
    Stack base room outer { frame with done := key :: frame.done, slot := none } (read ++ [','])
      rest := by
  have hcomma : Stack base room outer frame read ([','] ++ rest) := h
  exact hcomma.replace rfl fun _ _ hframe => hframe.comma hslot

/-- A name, blanks and a parenthesis open a call. -/
theorem openCall {name blanks : Text}
    (h : Stack base (room + 1) outer frame read (name ++ blanks ++ '(' :: rest))
    (hne : name ≠ []) (hname : Text.word (name ++ blanks) = name) (hblanks : blanks.AllBlank) :
    Stack base room ((⟨base + read.length, name⟩, frame) :: outer)
      (.empty (base + read.length + name.length + blanks.length))
      (read ++ (name ++ blanks ++ ['('])) rest :=
  .call (by simpa using h) hne hname hblanks rfl (Frame.covers_empty _ _ _)

/-- A parenthesis behind a filled slot closes a call, which fills a slot itself. -/
theorem closeCall {head : Head} {parent : Frame} {key : Key}
    (h : Stack base room ((head, parent) :: outer) frame read (')' :: rest))
    (hslot : frame.slot = some key) (hparent : parent.slot = none) :
    ∃ before text : Text, read ++ [')'] = before ++ text ∧ head.offset = base + before.length ∧
      Stack base (room + 1) outer
        { parent with
          slot := some (.call head.name (frame.keysWith key) head.offset
            (head.offset + text.length) text) }
        (before ++ text) rest := by
  cases h with
  | @call _ _ _ _ before name blanks inner _ hstack hne hname hblanks hpos hframe =>
    obtain ⟨args, hargs, hfit, htext, hkeys, hdepth⟩ := hframe.close hslot
    -- The head of the call and its arguments make a token of the list around it.
    let token : Token := .call name blanks args
    have htoken : token.text = name ++ blanks ++ '(' :: (inner ++ [')']) := by
      rw [← htext]
      exact Token.text_call ..
    -- The key of the call is the one that its token means.
    have hkey : Node.call name (frame.keysWith key) (base + before.length)
        (base + before.length + token.text.length) token.text =
        token.key (base + before.length) := by
      rw [Token.key, hkeys, hpos]
    refine ⟨before, token.text, ?_, rfl, ?_⟩
    · rw [htoken]
      simp
    · show Stack base (room + 1) outer { parent with slot := some (Node.call name _ _ _ _) } _ _
      rw [hkey]
      have hread : Stack base (room + 1) outer parent before (token.text ++ rest) := by
        rw [htoken]
        simpa using hstack
      refine hread.replace rfl fun outside hlength houtside => ?_
      have hsplit : parent.Covers (room + 1) outside ([] ++ token.text ++ [] ++ rest) := by
        simpa using houtside
      have hfill := hsplit.fill hparent .nil ⟨hne, hname, hblanks, hargs, hfit⟩ .nil
      simp only [List.length_nil, Nat.add_zero, hlength, List.nil_append, List.append_nil] at hfill
      apply hfill
      rw [← hkey, Node.depth]
      omega

end Stack

/-! ## The invariant -/

/-- The mode behind a plain text. -/
def modeBehind (span : Text) : Mode :=
  match span.getLast? with
  | some c => modeAfter c
  | none => .code

omit [Machine] in
theorem inCode_modeBehind (span : Text) : (modeBehind span).inCode = true := by
  rw [modeBehind]
  split
  · exact inCode_modeAfter _
  · rfl

omit [Machine] in
/-- The mode behind a plain text is completed by what makes a pair with its last character. -/
theorem completes_modeBehind_iff (span : Text) (c : Char) :
    (modeBehind span).completes c = true ↔ ∃ d ∈ span.getLast?, isPair d c = true := by
  rw [modeBehind]
  split <;> rename_i h
  · rw [completes_modeAfter, h]
    simp
  · rw [h]
    simp [Mode.completes]

namespace State

/-- Outside comments: what is read makes the frames, up to a plain text that is pending. -/
structure InCode (base room : Nat) (s : State) (read span rest : Text) : Prop where
  mode : s.mode = modeBehind span
  plain : span.Plain
  stack : Stack base room s.outer s.frame read (span ++ rest)
  start : s.start = base + read.length
  seen : s.seen.reverse = read ++ span
  pos : s.pos = base + (read ++ span).length

/-- Inside a block comment that has not come to its end. -/
structure InBlock (base room : Nat) (s : State) (read body rest : Text) : Prop where
  mode : s.mode = .block ∧ body.getLast? ≠ some '*' ∨ s.mode = .star ∧ body.getLast? = some '*'
  noEnd : ¬ ['*', '/'] <:+: body
  stack : Stack base room s.outer s.frame read ('/' :: '*' :: (body ++ rest))
  seen : s.seen.reverse = read ++ '/' :: '*' :: body
  pos : s.pos = base + (read ++ '/' :: '*' :: body).length

/-- Inside a line comment that has not come to the end of the line. -/
structure InLine (base room : Nat) (s : State) (read body rest : Text) : Prop where
  mode : s.mode = .line
  noEnd : '\n' ∉ body
  stack : Stack base room s.outer s.frame read ('/' :: '/' :: (body ++ rest))
  seen : s.seen.reverse = read ++ '/' :: '/' :: body
  pos : s.pos = base + (read ++ '/' :: '/' :: body).length

/-- The scanner knows what it has read since the offset `base`, with `rest` still to come. -/
inductive Tracks (base : Nat) (s : State) (rest : Text) : Prop where
  | code {room : Nat} (read span : Text) : s.InCode base room read span rest → Tracks base s rest
  | block {room : Nat} (read body : Text) : s.InBlock base room read body rest →
      Tracks base s rest
  | line {room : Nat} (read body : Text) : s.InLine base room read body rest → Tracks base s rest

/-- Right behind the parenthesis of a layer nothing is read. -/
theorem tracks_initial (paren : Nat) (rest : Text) : Tracks (paren + 1) (initial paren) rest :=
  .code [] []
    { mode := rfl
      plain := Text.plain_nil
      stack := .layer rfl (Frame.covers_empty _ _ _)
      start := rfl
      seen := rfl
      pos := rfl }

namespace InCode

variable {base room : Nat} {s t : State} {read span rest : Text} {c : Char}

/-- The plain text is pending. -/
theorem pending (h : s.InCode base room read span rest) : s.Pending span where
  seen := ⟨read.reverse, by rw [← List.reverse_append, ← h.seen, List.reverse_reverse]⟩
  pos := by
    rw [h.pos, h.start, List.length_append]
    omega

theorem inCode (h : s.InCode base room read span rest) : s.mode.inCode = true := by
  rw [h.mode]
  exact inCode_modeBehind span

/-- No character that completes no pair makes one with the last pending character. -/
theorem isPair_eq_false (h : s.InCode base room read span (c :: rest))
    (hc : s.mode.completes c = false) : ∀ d ∈ span.getLast?, isPair d c = false := by
  intro d hd
  rw [← Bool.not_eq_true] at hc ⊢
  intro hpair
  rw [h.mode, completes_modeBehind_iff] at hc
  exact hc ⟨d, hd, hpair⟩

/-- At a delimiter the plain text is read as the scanner takes it. -/
theorem takes (h : s.InCode base room read span (c :: rest)) (hc : isDelimiter c = true)
    {frame : Frame} (htakes : s.frame.Takes s.start span frame) :
    Stack base room s.outer frame (read ++ span) (c :: rest) := by
  refine h.stack.takes h.plain ?_ (Text.word_delimiter rest hc) (h.start ▸ htakes)
  intro d _ e he
  obtain rfl : c = e := by simpa using he
  exact isPair_delimiter hc

/-- A place right behind what is read, at which the next token may begin. -/
private theorem of_fresh (hmode : t.mode = .code) (hstart : t.start = t.pos)
    (hstack : Stack base room t.outer t.frame read rest) (hseen : t.seen.reverse = read)
    (hpos : t.pos = base + read.length) : Tracks base t rest :=
  .code read []
    { mode := hmode
      plain := Text.plain_nil
      stack := hstack
      start := hstart.trans hpos
      seen := by rw [hseen, List.append_nil]
      pos := by rw [hpos, List.append_nil] }

/-- A character that is no delimiter and completes no pair joins the plain text. -/
theorem step_plain (h : s.InCode base room read span (c :: rest))
    (hc : s.mode.completes c = false) (hdelimiter : isDelimiter c = false)
    (hstep : s.step c = .ok (.reading t)) : Tracks base t rest := by
  rw [step_code h.inCode hc, code_of_not_delimiter _ hdelimiter] at hstep
  obtain rfl := Progress.reading.inj (Except.ok.inj hstep)
  exact .code read (span ++ [c])
    { mode := by simp [into, modeBehind]
      plain := h.plain.concat hdelimiter (h.isPair_eq_false hc)
      stack := by simpa [into, see] using h.stack
      start := h.start
      seen := by simp [into, see, h.seen]
      pos := by
        have := h.pos
        simp only [into, see, List.length_append, List.length_singleton] at this ⊢
        omega }

/-- The second half of a pair ends the plain text before the first half. -/
theorem exists_pair (h : s.InCode base room read span (c :: rest))
    (hc : s.mode.completes c = true) :
    ∃ span' d, span = span' ++ [d] ∧ isPair d c = true ∧ (s.see c).Pending (span' ++ [d, c]) ∧
      (s.see c).pos - 2 = (s.see c).start + span'.length := by
  rw [h.mode, completes_modeBehind_iff] at hc
  obtain ⟨d, hd, hpair⟩ := hc
  obtain ⟨span', rfl⟩ := List.getLast?_eq_some_iff.mp hd
  refine ⟨span', d, rfl, hpair, by simpa using h.pending.see c, ?_⟩
  have := h.pending.pos
  simp only [see, List.length_append, List.length_singleton] at this ⊢
  omega

/-- With the second half of a pair the plain text before the pair is read. -/
theorem step_pair (h : s.InCode base room read span (c :: rest))
    (hc : s.mode.completes c = true) (hstep : s.step c = .ok (.reading t)) :
    Tracks base t rest := by
  obtain ⟨span', d, rfl, hpair, hboth, hoffset⟩ := h.exists_pair hc
  rw [State.step_pair hc, skip] at hstep
  split at hstep
  case h_2 => cases hstep
  rename_i frame hflush
  obtain rfl := Progress.reading.inj (Except.ok.inj hstep)
  -- What is pending before the pair is taken.
  have htakes : s.frame.Takes (base + read.length) span' frame := by
    rw [hoffset, flush_eq_ok_iff hboth] at hflush
    rw [← h.start]
    exact hflush
  have hwithin : span' <:+: span' ++ [d] := (List.prefix_append span' [d]).isInfix
  have hstack : Stack base room s.outer frame (read ++ span') (d :: c :: rest) := by
    refine Stack.takes (by simpa using h.stack) (h.plain.of_isInfix hwithin) ?_
      (Text.word_pair rest hpair) htakes
    intro e he d' hd'
    obtain rfl : d = d' := by simpa using hd'
    obtain ⟨span'', rfl⟩ := List.getLast?_eq_some_iff.mp he
    exact h.plain.pair e d ⟨span'', [], by simp⟩
  have hseen : (s.see c).seen.reverse = read ++ span' ++ [d, c] := by
    simp [see, h.seen]
  have hpos : (s.see c).pos = base + (read ++ span' ++ [d, c]).length := by
    have := h.pos
    simp only [see, List.length_append, List.length_cons, List.length_nil] at this ⊢
    omega
  -- The pair begins a comment or continues the line.
  simp only [isPair, Bool.or_eq_true, Bool.and_eq_true, beq_iff_eq] at hpair
  rcases hpair with ⟨rfl, rfl | rfl⟩ | ⟨rfl, rfl⟩
  · exact .block (read ++ span') []
      { mode := .inl ⟨rfl, by simp⟩
        noEnd := by simp
        stack := hstack
        seen := hseen
        pos := hpos }
  · exact .line (read ++ span') []
      { mode := rfl
        noEnd := by simp
        stack := hstack
        seen := hseen
        pos := hpos }
  · have hcontinued : Stack base room s.outer frame (read ++ span') (['\\', '\n'] ++ rest) := hstack
    exact of_fresh rfl rfl (hcontinued.append (.continued .nil)) hseen hpos

/-- A comma completes an argument. -/
theorem step_comma (h : s.InCode base room read span (',' :: rest))
    (hstep : s.step ',' = .ok (.reading t)) : Tracks base t rest := by
  obtain ⟨frame, key, htakes, hslot, heq⟩ := (step_comma_iff h.inCode h.pending _).mp hstep
  obtain rfl := Progress.reading.inj heq
  apply of_fresh rfl rfl ((h.takes rfl htakes).comma hslot)
  · simp [fresh, see, h.seen]
  · have := h.pos
    simp only [fresh, see, List.length_append, List.length_singleton] at this ⊢
    omega

/-- A parenthesis behind a word opens a call. -/
theorem step_open (h : s.InCode base room read span ('(' :: rest))
    (hstep : s.step '(' = .ok (.reading t)) : Tracks base t rest := by
  obtain ⟨before, name, after, hspan, hbefore, hafter, hne, hname, hroom, heq⟩ :=
    (step_open_iff h.inCode h.pending _).mp hstep
  obtain rfl := Progress.reading.inj heq
  subst hspan
  -- There is room for the call, because the scanner has checked it.
  have hsum := h.stack.room_add_length
  obtain ⟨room, rfl⟩ : ∃ n, room = n + 1 := ⟨room - 1, by omega⟩
  -- The name is a word, since the blanks behind it end it.
  have hword : Text.word (name ++ after) = name := by
    simpa using @Text.word_append_of_plain_span before name after [] h.plain hname hafter
      (fun _ _ _ hd => nomatch hd) Text.word_nil
  -- The blanks before the name are trivia.
  have hstack := h.stack
  have hread : Stack base (room + 1) s.outer s.frame (read ++ before)
      (name ++ after ++ '(' :: rest) :=
    Stack.append (by simpa using hstack) (.of_allBlank hbefore)
  have hopen := hread.openCall hne hword hafter
  have hparen : base + (read ++ before).length + name.length + after.length = s.pos := by
    rw [h.pos]
    simp only [List.length_append]
    omega
  have hhead : base + (read ++ before).length = s.start + before.length := by
    rw [h.start, List.length_append]
    omega
  rw [hparen, hhead] at hopen
  apply of_fresh rfl rfl hopen
  · simp [see, h.seen]
  · have := h.pos
    simp only [see, List.length_append, List.length_singleton] at this ⊢
    omega

/-- A parenthesis behind an argument of a call closes the call. -/
theorem step_close (h : s.InCode base room read span (')' :: rest))
    (hstep : s.step ')' = .ok (.reading t)) : Tracks base t rest := by
  match houter : s.outer with
  | [] =>
    -- The parenthesis would close the layer.
    obtain ⟨frame, key, -, -, heq⟩ :=
      (step_close_layer_iff h.inCode h.pending houter _).mp hstep
    cases heq
  | (head, parent) :: outer =>
    obtain ⟨frame, key, htakes, hslot, hparent, heq⟩ :=
      (step_close_call_iff h.inCode h.pending houter _).mp hstep
    obtain rfl := Progress.reading.inj heq
    have hstack := h.takes rfl htakes
    rw [houter] at hstack
    obtain ⟨before, text, hread, hoffset, hclosed⟩ := hstack.closeCall hslot hparent
    have hseen : (s.see ')').seen.reverse = before ++ text := by
      rw [← hread]
      simp [see, h.seen]
    have hpos : s.pos + 1 = base + (before ++ text).length := by
      have := h.pos
      rw [← hread]
      simp only [List.length_append, List.length_singleton] at this ⊢
      omega
    -- The scanner gives the call the text between its two ends.
    have hstop : s.pos + 1 = head.offset + text.length := by
      rw [hpos, hoffset, List.length_append]
      omega
    have hbetween : (s.see ')').between head.offset (s.pos + 1) = text := by
      have hreverse : (s.see ')').seen = text.reverse ++ before.reverse := by
        rw [← List.reverse_append, ← hseen, List.reverse_reverse]
      have hdrop : (s.see ')').pos - (s.pos + 1) = 0 := by simp [see]
      have htake : s.pos + 1 - head.offset = text.reverse.length := by
        rw [List.length_reverse]
        omega
      rw [between, hdrop, List.drop_zero, hreverse, htake, List.take_left, List.reverse_reverse]
    have hkey : s.closedCall head (frame.keysWith key) =
        .call head.name (frame.keysWith key) head.offset (head.offset + text.length) text := by
      rw [closedCall, hbetween, hstop]
    rw [← hkey] at hclosed
    exact of_fresh rfl rfl hclosed hseen hpos

/-- A step outside comments preserves the invariant. -/
theorem step (h : s.InCode base room read span (c :: rest)) (hstep : s.step c = .ok (.reading t)) :
    Tracks base t rest := by
  by_cases hc : s.mode.completes c = true
  · exact h.step_pair hc hstep
  · -- A character of code: a delimiter, or one that joins the plain text.
    cases hdelimiter : isDelimiter c with
    | false => exact h.step_plain (by simpa using hc) hdelimiter hstep
    | true =>
      simp only [isDelimiter, Bool.or_eq_true, beq_iff_eq] at hdelimiter
      rcases hdelimiter with (rfl | rfl) | rfl
      · exact h.step_comma hstep
      · exact h.step_open hstep
      · exact h.step_close hstep

end InCode

/-! ## Comments -/

variable {base room : Nat} {s t : State} {read body rest : Text} {c : Char}

omit [Machine] in
/-- No end of a comment comes in with a character unless it closes one. -/
theorem noEnd_concat (hbody : ¬ ['*', '/'] <:+: body)
    (hlast : body.getLast? = some '*' → c ≠ '/') : ¬ ['*', '/'] <:+: body ++ [c] := by
  intro hwithin
  rcases List.infix_concat_iff.mp hwithin with hends | hwithin
  · obtain ⟨u, heq⟩ := hends
    have heq' : (u ++ ['*']) ++ ['/'] = body ++ [c] := by simpa using heq
    obtain ⟨hbody', hc⟩ := List.append_inj' heq' rfl
    exact hlast (by rw [← hbody']; simp) (by simpa using hc.symm)
  · exact hbody hwithin

/-- A step inside a block comment preserves the invariant. -/
theorem InBlock.step (h : s.InBlock base room read body (c :: rest))
    (hstep : s.step c = .ok (.reading t)) : Tracks base t rest := by
  have hseen : (s.see c).seen.reverse = read ++ '/' :: '*' :: (body ++ [c]) := by
    simp [see, h.seen]
  have hpos : (s.see c).pos = base + (read ++ '/' :: '*' :: (body ++ [c])).length := by
    have := h.pos
    simp only [see, List.length_append, List.length_cons, List.length_nil] at this ⊢
    omega
  have hstack : Stack base room s.outer s.frame read ('/' :: '*' :: (body ++ [c] ++ rest)) := by
    simpa using h.stack
  by_cases hclose : s.mode = .star ∧ c = '/'
  · -- The comment ends.
    obtain ⟨hmode, rfl⟩ := hclose
    have hlast : body.getLast? = some '*' := by
      rcases h.mode with ⟨hblock, -⟩ | ⟨-, hlast⟩
      · rw [hmode] at hblock; cases hblock
      · exact hlast
    obtain ⟨body', rfl⟩ := List.getLast?_eq_some_iff.mp hlast
    simp only [State.step, hmode] at hstep
    obtain rfl := Progress.reading.inj (Except.ok.inj hstep)
    have hcomment : Trivia ('/' :: '*' :: (body' ++ ['*'] ++ ['/'])) := by
      simpa using Trivia.block h.noEnd .nil
    have hread : Stack base room s.outer s.frame read
        ('/' :: '*' :: (body' ++ ['*'] ++ ['/']) ++ rest) := hstack
    exact InCode.of_fresh rfl rfl (hread.append hcomment) hseen hpos
  · -- The comment goes on.
    have hnoEnd : ¬ ['*', '/'] <:+: body ++ [c] := by
      apply noEnd_concat h.noEnd
      intro hlast hslash
      rcases h.mode with ⟨-, hno⟩ | ⟨hmode, -⟩
      · exact hno hlast
      · exact hclose ⟨hmode, hslash⟩
    by_cases hstar : c = '*'
    · subst hstar
      have hreads : s.step '*' = .ok (.reading ((s.see '*').into .star)) := by
        rcases h.mode with ⟨hmode, -⟩ | ⟨hmode, -⟩
        · simp [State.step, hmode]
        · simp [State.step, hmode, into, see]
      rw [hreads] at hstep
      obtain rfl := Progress.reading.inj (Except.ok.inj hstep)
      exact .block read (body ++ ['*'])
        ⟨.inr ⟨rfl, by simp⟩, hnoEnd, hstack, hseen, hpos⟩
    · have hreads : s.step c = .ok (.reading ((s.see c).into .block)) := by
        rcases h.mode with ⟨hmode, -⟩ | ⟨hmode, -⟩
        · simp [State.step, hmode, into, see]
        · have hslash : c ≠ '/' := fun hslash => hclose ⟨hmode, hslash⟩
          simp [State.step, hmode]
      rw [hreads] at hstep
      obtain rfl := Progress.reading.inj (Except.ok.inj hstep)
      exact .block read (body ++ [c])
        ⟨.inl ⟨rfl, by simpa using hstar⟩, hnoEnd, hstack, hseen, hpos⟩

/-- A step inside a line comment preserves the invariant. -/
theorem InLine.step (h : s.InLine base room read body (c :: rest))
    (hstep : s.step c = .ok (.reading t)) : Tracks base t rest := by
  have hseen : (s.see c).seen.reverse = read ++ '/' :: '/' :: (body ++ [c]) := by
    simp [see, h.seen]
  have hpos : (s.see c).pos = base + (read ++ '/' :: '/' :: (body ++ [c])).length := by
    have := h.pos
    simp only [see, List.length_append, List.length_cons, List.length_nil] at this ⊢
    omega
  have hstack : Stack base room s.outer s.frame read ('/' :: '/' :: (body ++ [c] ++ rest)) := by
    simpa using h.stack
  -- The newline makes the comment whole, and belongs to it.
  by_cases hc : c = '\n'
  · subst hc
    simp only [State.step, h.mode] at hstep
    obtain rfl := Progress.reading.inj (Except.ok.inj hstep)
    have hcomment : Trivia ('/' :: '/' :: (body ++ ['\n'])) := .line h.noEnd .nil
    have hread : Stack base room s.outer s.frame read
        ('/' :: '/' :: (body ++ ['\n']) ++ rest) := hstack
    exact InCode.of_fresh rfl rfl (hread.append hcomment) hseen hpos
  · have hreads : s.step c = .ok (.reading (s.see c)) := by
      simp [State.step, h.mode]
    rw [hreads] at hstep
    obtain rfl := Progress.reading.inj (Except.ok.inj hstep)
    -- Otherwise the comment goes on, with one more character that does not end it.
    exact .line read (body ++ [c])
      ⟨h.mode, by simp [h.noEnd, Ne.symm hc], hstack, hseen, hpos⟩

/-! ## Steps and runs -/

namespace Tracks

/-- Every step preserves the invariant. -/
theorem step (h : Tracks base s (c :: rest)) (hstep : s.step c = .ok (.reading t)) :
    Tracks base t rest := by
  cases h with
  | code _ _ h => exact h.step hstep
  | block _ _ h => exact h.step hstep
  | line _ _ h => exact h.step hstep

/-- The layer is closed outside comments, by its own parenthesis. -/
private theorem inCode_of_closed {keys : List Key} (h : Tracks base s (c :: rest))
    (hstep : s.step c = .ok (.closed keys)) :
    ∃ room read span, s.InCode base room read span (c :: rest) ∧ c = ')' ∧ s.outer = [] := by
  cases h with
  | block _ _ h =>
    -- No step inside a comment closes anything.
    have hmode : s.mode.inCode = false := by
      rcases h.mode with ⟨hmode, -⟩ | ⟨hmode, -⟩ <;> rw [hmode] <;> rfl
    obtain ⟨t, hreads⟩ := step_comment hmode c
    rw [hreads] at hstep
    cases hstep
  | line _ _ h =>
    obtain ⟨t, hreads⟩ := step_comment (s := s) (by rw [h.mode]; rfl) c
    rw [hreads] at hstep
    cases hstep
  | @code room read span h =>
    refine ⟨room, read, span, h, ?_⟩
    by_cases hc : s.mode.completes c = true
    · rw [State.step_pair hc, skip] at hstep
      split at hstep <;> cases hstep
    · -- Of the characters of code only a closing parenthesis can close the layer.
      cases hdelimiter : isDelimiter c with
      | false =>
        rw [step_code h.inCode (by simpa using hc), code_of_not_delimiter _ hdelimiter] at hstep
        cases hstep
      | true =>
        simp only [isDelimiter, Bool.or_eq_true, beq_iff_eq] at hdelimiter
        rcases hdelimiter with (rfl | rfl) | rfl
        · obtain ⟨_, _, -, -, heq⟩ := (step_comma_iff h.inCode h.pending _).mp hstep
          cases heq
        · obtain ⟨_, _, _, -, -, -, -, -, -, heq⟩ :=
            (step_open_iff h.inCode h.pending _).mp hstep
          cases heq
        · cases houter : s.outer with
          | nil => exact ⟨rfl, rfl⟩
          | cons parent outer =>
            obtain ⟨_, _, -, -, -, heq⟩ :=
              (step_close_call_iff h.inCode h.pending houter _).mp hstep
            cases heq

/-- The step that closes the layer completes arguments that fit the grammar. -/
theorem closed {keys : List Key} (h : Tracks base s (c :: rest))
    (hstep : s.step c = .ok (.closed keys)) :
    ∃ args : ArgumentList, args ≠ [] ∧ args.Fit ∧ args.text = s.seen.reverse ++ [c] ∧
      keys = args.keys base ∧ Node.depthAll keys ≤ nestingLimit := by
  obtain ⟨room, read, span, h, rfl, houter⟩ := h.inCode_of_closed hstep
  obtain ⟨frame, key, htakes, hslot, heq⟩ :=
    (step_close_layer_iff h.inCode h.pending houter _).mp hstep
  obtain rfl := Progress.closed.inj heq
  have hstack := h.takes rfl htakes
  rw [houter] at hstack
  cases hstack with
  | layer hbase hframe =>
    obtain ⟨args, hne, hfit, htext, hkeys, hdepth⟩ := hframe.close hslot
    exact ⟨args, hne, hfit, by rw [htext, h.seen], by rw [hkeys, hbase], hdepth⟩

end Tracks

/-- A run that closes the layer completes arguments that fit the grammar. -/
private theorem scan_sound_go {text : Text} {closed : Closed} (h : Tracks base s text)
    (hscan : s.scan text = .ok closed) :
    ∃ args : ArgumentList, args ≠ [] ∧ args.Fit ∧
      args.text ++ closed.rest = s.seen.reverse ++ text ∧ closed.keys = args.keys base ∧
      Node.depthAll closed.keys ≤ nestingLimit := by
  -- The induction is on what is left to read. What has been read tracks a part of a list.
  induction text generalizing s with
  | nil => cases hscan
  | cons c rest ih =>
    rw [scan_cons] at hscan
    split at hscan
    · cases hscan
    · rename_i keys hstep
      obtain rfl := Except.ok.inj hscan
      -- The layer closes here, so its list has been read in full.
      obtain ⟨args, hne, hfit, htext, hkeys, hdepth⟩ := h.closed hstep
      exact ⟨args, hne, hfit, by simp [htext], hkeys, hdepth⟩
    · rename_i t hstep
      obtain ⟨args, hne, hfit, htext, hkeys, hdepth⟩ := ih (h.step hstep) hscan
      refine ⟨args, hne, hfit, ?_, hkeys, hdepth⟩
      rw [htext, (step_seen hstep).1]
      simp

/-- A layer that is scanned is derived by the grammar. -/
theorem scan_sound {paren : Nat} {text : Text} {closed : Closed}
    (hscan : (initial paren).scan text = .ok closed) :
    ∃ args : ArgumentList, args ≠ [] ∧ args.Fit ∧ text = args.text ++ closed.rest ∧
      closed.keys = args.keys (paren + 1) ∧ Node.depthAll closed.keys ≤ nestingLimit := by
  obtain ⟨args, hne, hfit, htext, hkeys, hdepth⟩ :=
    scan_sound_go (tracks_initial paren text) hscan
  exact ⟨args, hne, hfit, htext.symm, hkeys, hdepth⟩

end State

end Keymap
