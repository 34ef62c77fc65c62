import Keymap.Proofs.Grammar
import Keymap.Proofs.Scan.Step

/-!
# Scanning what the grammar derives

Arguments that fit the grammar are scanned without a fault, and give the keys that they mean. The
induction is on the tree: a token that is read from a state in which a slot is open leads to a
state in which the token's key fills the slot.

## Key results

- `State.Rests.reads_trivia` — trivia change nothing
- `State.Rests.reads_word` — a word fills the slot
- `State.reads_token`, `State.reads_arguments` — and so does every token that fits
- `State.Rests.reads_leading` — arguments with a comma behind each of them are done
- `State.scan_arguments` — scanning arguments that fit closes the layer with their keys
-/

namespace Keymap

variable [Machine]

namespace State

/-- The scanner is outside comments, and what is pending makes the given frame of its frame. -/
structure Rests (s : State) (frame : Frame) : Prop where
  inCode : s.mode.inCode = true
  takes : ∃ span, s.Pending span ∧ s.frame.Takes s.start span frame

namespace Rests

variable {s : State} {frame : Frame}

omit [Machine] in
/-- Nothing is pending where the next token may begin right here. -/
theorem of_fresh (hmode : s.mode = .code) (hstart : s.start = s.pos) (hframe : s.frame = frame) :
    s.Rests frame where
  inCode := by rw [hmode]; rfl
  takes := ⟨[], ⟨List.nil_prefix, by simp [hstart]⟩, hframe ▸ .blank Text.allBlank_nil⟩

/-! ## Trivia -/

/-- A blank changes nothing. -/
theorem step_blank {c : Char} (h : s.Rests frame) (hc : isBlank c = true)
    (hmeets : s.mode.completes c = false) :
    ∃ t, s.step c = .ok (.reading t) ∧ t.Rests frame ∧ t.mode = .code ∧ t.outer = s.outer := by
  obtain ⟨span, hpending, htakes⟩ := h.takes
  refine ⟨(s.see c).into .code, ?_, ⟨rfl, span ++ [c], ?_, htakes.snoc hc⟩, rfl, rfl⟩
  · rw [step_code h.inCode hmeets, code_of_not_delimiter _ (isDelimiter_of_isBlank hc),
      modeAfter_blank hc]
  · exact ⟨(hpending.see c).seen, (hpending.see c).pos⟩

/-- A pair ends what is pending before it. -/
theorem reads_pair {c d : Char} (h : s.Rests frame) (hpair : isPair c d = true)
    (hmeets : s.mode.completes c = false) :
    ∃ t, s.Reads [c, d] t ∧ t.mode = modeAfterPair d ∧ t.start = t.pos ∧ t.frame = frame ∧
      t.outer = s.outer := by
  obtain ⟨span, hpending, htakes⟩ := h.takes
  -- The first half is held in the mode.
  let half := (s.see c).into (modeAfter c)
  have hfirst : s.step c = .ok (.reading half) := by
    rw [step_code h.inCode hmeets, code_of_not_delimiter _ (isDelimiter_of_isPair hpair)]
  -- With the second half, what is pending before both of them is flushed.
  have hhalf : half.Pending (span ++ [c]) := ⟨(hpending.see c).seen, (hpending.see c).pos⟩
  have hflush : (half.see d).flush ((half.see d).pos - 2) = .ok frame := by
    have hoffset : (half.see d).pos - 2 = (half.see d).start + span.length := by
      have hpos := hpending.pos
      simp only [half, see, into]
      omega
    have hboth : (half.see d).Pending (span ++ [c, d]) := by
      simpa using hhalf.see d
    rw [hoffset, flush_eq_ok_iff hboth]
    exact htakes
  have hsecond : half.step d = .ok (.reading ((half.see d).fresh (modeAfterPair d) frame)) := by
    have hcompletes : half.mode.completes d = true := by
      rw [show half.mode = modeAfter c from rfl, completes_modeAfter, hpair]
    rw [step_pair hcompletes, skip, hflush]
  exact ⟨_, .cons hfirst (.single hsecond), rfl, rfl, rfl, rfl⟩

end Rests

/-- A block comment goes on up to its end. The mode remembers a star, so the induction is on the
rest of the comment for both modes at once. -/
theorem reads_block_body {body : Text} {s : State}
    (h : s.mode = .block ∧ ¬ ['*', '/'] <:+: body ∨
      s.mode = .star ∧ ¬ ['*', '/'] <:+: '*' :: body) :
    ∃ t, s.Reads body t ∧ (t.mode = .block ∨ t.mode = .star) ∧ t.frame = s.frame ∧
      t.outer = s.outer := by
  induction body generalizing s with
  | nil => exact ⟨s, .nil s, h.imp And.left And.left, rfl, rfl⟩
  | cons c body ih =>
    have hnext : ∃ t, s.step c = .ok (.reading t) ∧ t.frame = s.frame ∧ t.outer = s.outer ∧
        (t.mode = .block ∧ ¬ ['*', '/'] <:+: body ∨
          t.mode = .star ∧ ¬ ['*', '/'] <:+: '*' :: body) := by
      rcases h with ⟨hmode, hbody⟩ | ⟨hmode, hbody⟩
      · -- Only a star changes the mode.
        by_cases hc : c = '*'
        · subst hc
          exact ⟨(s.see '*').into .star, by simp [step, hmode], rfl, rfl, .inr ⟨rfl, hbody⟩⟩
        · have htail : ¬ ['*', '/'] <:+: body := fun hwithin =>
            hbody (List.IsInfix.trans hwithin (List.suffix_cons c _).isInfix)
          exact ⟨s.see c, by simp [step, hmode], rfl, rfl, .inl ⟨hmode, htail⟩⟩
      · -- Behind a star another one keeps the mode, and no slash can come.
        by_cases hc : c = '*'
        · subst hc
          have htail : ¬ ['*', '/'] <:+: '*' :: body := fun hwithin =>
            hbody (List.IsInfix.trans hwithin (List.suffix_cons '*' _).isInfix)
          exact ⟨s.see '*', by simp [step, hmode], rfl, rfl, .inr ⟨hmode, htail⟩⟩
        · have hslash : c ≠ '/' := by
            rintro rfl
            exact hbody ⟨[], body, rfl⟩
          have htail : ¬ ['*', '/'] <:+: body := fun hwithin =>
            hbody (List.IsInfix.trans hwithin ⟨['*', c], [], by simp⟩)
          exact ⟨(s.see c).into .block, by simp [step, hmode], rfl, rfl,
            .inl ⟨rfl, htail⟩⟩
    obtain ⟨t, hstep, hframe, houter, hmode⟩ := hnext
    obtain ⟨u, hreads, hmode', hframe', houter'⟩ := ih hmode
    exact ⟨u, .cons hstep hreads, hmode', hframe'.trans hframe, houter'.trans houter⟩

/-- A block comment is left at its first end. -/
theorem reads_block {body : Text} {s : State} (hmode : s.mode = .block)
    (hbody : ¬ ['*', '/'] <:+: body ++ ['*']) :
    ∃ t, s.Reads (body ++ ['*', '/']) t ∧ t.mode = .code ∧ t.start = t.pos ∧
      t.frame = s.frame ∧ t.outer = s.outer := by
  have hbody' : ¬ ['*', '/'] <:+: body := fun hwithin =>
    hbody (List.IsInfix.trans hwithin (List.prefix_append body ['*']).isInfix)
  obtain ⟨t, hreads, hmode', hframe, houter⟩ := reads_block_body (.inl ⟨hmode, hbody'⟩)
  -- The star and the slash that end the comment.
  obtain ⟨u, hstar, hmode'', hframe', houter'⟩ : ∃ u, t.step '*' = .ok (.reading u) ∧
      u.mode = .star ∧ u.frame = t.frame ∧ u.outer = t.outer := by
    rcases hmode' with hblock | hstar
    · exact ⟨(t.see '*').into .star, by simp [step, hblock], rfl, rfl, rfl⟩
    · exact ⟨t.see '*', by simp [step, hstar], hstar, rfl, rfl⟩
  have hslash : u.step '/' = .ok (.reading ((u.see '/').fresh .code (u.see '/').frame)) := by
    simp [step, hmode'']
  exact ⟨_, hreads.append (.cons hstar (.single hslash)), rfl, rfl, hframe'.trans hframe,
    houter'.trans houter⟩

/-- A line comment goes on up to the end of the line. -/
theorem reads_line_body {body : Text} {s : State} (hmode : s.mode = .line) (hbody : '\n' ∉ body) :
    ∃ t, s.Reads body t ∧ t.mode = .line ∧ t.frame = s.frame ∧ t.outer = s.outer := by
  induction body generalizing s with
  | nil => exact ⟨s, .nil s, hmode, rfl, rfl⟩
  | cons c body ih =>
    simp only [List.mem_cons, not_or] at hbody
    have hstep : s.step c = .ok (.reading (s.see c)) := by
      simp [step, hmode, Ne.symm hbody.1]
    obtain ⟨t, hreads, hline, hframe, houter⟩ := ih (s := s.see c) hmode hbody.2
    exact ⟨t, .cons hstep hreads, hline, hframe, houter⟩

/-- A line comment is left at the end of the line. -/
theorem reads_line {body : Text} {s : State} (hmode : s.mode = .line)
    (hbody : '\n' ∉ body) :
    ∃ t, s.Reads (body ++ ['\n']) t ∧ t.mode = .code ∧ t.start = t.pos ∧
      t.frame = s.frame ∧ t.outer = s.outer := by
  obtain ⟨t, hreads, hline, hframe, houter⟩ := reads_line_body hmode hbody
  have hstep : t.step '\n' = .ok (.reading ((t.see '\n').fresh .code (t.see '\n').frame)) := by
    simp [step, hline]
  exact ⟨_, hreads.append (.single hstep), rfl, rfl, hframe, houter⟩

/-- A block comment ends what is pending. -/
theorem Rests.reads_blockComment {body : Text} {s : State} {frame : Frame} (h : s.Rests frame)
    (hmeets : s.mode.completes '/' = false) (hbody : ¬ ['*', '/'] <:+: body ++ ['*']) :
    ∃ t, s.Reads ('/' :: '*' :: (body ++ ['*', '/'])) t ∧ t.mode = .code ∧ t.start = t.pos ∧
      t.frame = frame ∧ t.outer = s.outer := by
  obtain ⟨t, hpair, hmode, -, hframe, houter⟩ :=
    h.reads_pair (c := '/') (d := '*') (by decide) hmeets
  obtain ⟨u, hreads, hcode, hstart, hframe', houter'⟩ := reads_block hmode hbody
  exact ⟨u, hpair.append hreads, hcode, hstart, hframe'.trans hframe, houter'.trans houter⟩

/-- A line comment ends what is pending. -/
theorem Rests.reads_lineComment {body : Text} {s : State} {frame : Frame} (h : s.Rests frame)
    (hmeets : s.mode.completes '/' = false) (hbody : '\n' ∉ body) :
    ∃ t, s.Reads ('/' :: '/' :: (body ++ ['\n'])) t ∧ t.mode = .code ∧ t.start = t.pos ∧
      t.frame = frame ∧ t.outer = s.outer := by
  obtain ⟨t, hpair, hmode, -, hframe, houter⟩ :=
    h.reads_pair (c := '/') (d := '/') (by decide) hmeets
  obtain ⟨u, hreads, hcode, hstart, hframe', houter'⟩ := reads_line hmode hbody
  exact ⟨u, hpair.append hreads, hcode, hstart, hframe'.trans hframe, houter'.trans houter⟩

omit [Machine] in
/-- The mode of code meets every text. -/
theorem meets_code {mode : Mode} (h : mode = .code) (text : Text) : mode.Meets text := by
  intro c _
  rw [h]
  rfl

/-- Trivia change nothing. -/
theorem Rests.reads_trivia {trivia : Text} (htrivia : Trivia trivia) {s : State} {frame : Frame}
    (h : s.Rests frame) (hmeets : s.mode.Meets trivia) :
    ∃ t, s.Reads trivia t ∧ t.Rests frame ∧ t.outer = s.outer ∧
      (t.mode = .code ∨ t.mode = s.mode) := by
  -- Behind every piece of trivia the mode is that of code, and the rest is read from there.
  have later {rest : Text} {s t : State} {piece : Text} (hpiece : s.Reads piece t)
      (hmode : t.mode = .code) (houter : t.outer = s.outer)
      (ih : ∃ u, t.Reads rest u ∧ u.Rests frame ∧ u.outer = t.outer ∧
        (u.mode = .code ∨ u.mode = t.mode)) :
      ∃ u, s.Reads (piece ++ rest) u ∧ u.Rests frame ∧ u.outer = s.outer ∧
        (u.mode = .code ∨ u.mode = s.mode) := by
    obtain ⟨u, hreads, hrests, houter', hmode'⟩ := ih
    exact ⟨u, hpiece.append hreads, hrests, houter'.trans houter,
      .inl (hmode'.elim id (·.trans hmode))⟩
  induction htrivia generalizing s with
  | nil => exact ⟨s, .nil s, h, rfl, .inr rfl⟩
  | blank hc _ ih =>
    obtain ⟨t, hstep, hrests, hmode, houter⟩ := h.step_blank hc (hmeets _ rfl)
    exact later (.single hstep) hmode houter (ih hrests (meets_code hmode _))
  | block hbody _ ih =>
    obtain ⟨t, hreads, hmode, hstart, hframe, houter⟩ := h.reads_blockComment (hmeets _ rfl) hbody
    simpa using later hreads hmode houter
      (ih (.of_fresh hmode hstart hframe) (meets_code hmode _))
  | line hbody _ ih =>
    obtain ⟨t, hreads, hmode, hstart, hframe, houter⟩ := h.reads_lineComment (hmeets _ rfl) hbody
    simpa using later hreads hmode houter
      (ih (.of_fresh hmode hstart hframe) (meets_code hmode _))
  | continued _ ih =>
    -- A continuation is a pair, behind which nothing is left to skip.
    obtain ⟨t, hpair, hmode, hstart, hframe, houter⟩ :=
      h.reads_pair (c := '\\') (d := '\n') (by decide) (hmeets _ rfl)
    exact later hpair hmode houter (ih (.of_fresh hmode hstart hframe) (meets_code hmode _))

/-! ## Words -/

/-- The characters of a word become pending. -/
private theorem reads_chars {w after : Text} (hword : Text.word (w ++ after) = w) {s : State}
    {span : Text} (hmode : s.mode.inCode = true) (hmeets : s.mode.Meets (w ++ after))
    (hpending : s.Pending span) :
    ∃ t, s.Reads w t ∧ t.Pending (span ++ w) ∧ t.mode.inCode = true ∧ t.mode.Meets after ∧
      t.start = s.start ∧ t.frame = s.frame ∧ t.outer = s.outer := by
  induction w generalizing s span with
  | nil => exact ⟨s, .nil s, by simpa using hpending, hmode, hmeets, rfl, rfl, rfl⟩
  | cons c w ih =>
    obtain ⟨-, hdelimiter, hpair, hword⟩ := (Text.word_cons_append_eq_iff ..).mp hword
    let t := (s.see c).into (modeAfter c)
    have hstep : s.step c = .ok (.reading t) := by
      rw [step_code hmode (hmeets c rfl), code_of_not_delimiter _ hdelimiter]
    -- No pair stands at the head of the text, so the next character completes none.
    have hmeets' : t.mode.Meets (w ++ after) := by
      intro d hd
      rw [show t.mode = modeAfter c from rfl, completes_modeAfter]
      cases hrest : w ++ after with
      | nil => rw [hrest] at hd; exact nomatch hd
      | cons e rest =>
        rw [hrest] at hd
        obtain rfl : e = d := by simpa using hd
        rw [List.cons_append, hrest] at hpair
        exact hpair
    obtain ⟨u, hreads, hpending', hcode, hafter, hstart, hframe, houter⟩ :=
      ih hword (inCode_modeAfter c) hmeets' ⟨(hpending.see c).seen, (hpending.see c).pos⟩
    exact ⟨u, .cons hstep hreads, by simpa using hpending', hcode, hafter, hstart, hframe, houter⟩

/-- A word fills the slot. -/
theorem Rests.reads_word {w after : Text} {s : State} {frame : Frame} (h : s.Rests frame)
    (hslot : frame.slot = none) (hne : w ≠ []) (hword : Text.word (w ++ after) = w)
    (hmeets : s.mode.Meets (w ++ after)) :
    ∃ t, s.Reads w t ∧
      t.Rests { frame with slot := some (.word w s.pos (s.pos + w.length)) } ∧
      t.mode.Meets after ∧ t.outer = s.outer := by
  obtain ⟨span, hpending, htakes⟩ := h.takes
  -- The slot is open, so only blanks are pending before the word.
  obtain ⟨rfl, hblank⟩ := htakes.eq_of_slot hslot
  obtain ⟨t, hreads, hpending', hcode, hafter, hstart, hframe, houter⟩ :=
    reads_chars hword h.inCode hmeets hpending
  have hnoblank := Text.hasBlank_of_word_append hword
  refine ⟨t, hreads, ⟨hcode, span ++ w, hpending', ?_⟩, hafter, houter⟩
  rw [hframe, hstart, hpending.pos]
  exact .word (List.append_nil _).symm hblank Text.allBlank_nil hne hnoblank hslot

/-- Blanks become pending. -/
theorem reads_blanks {blanks : Text} (hblanks : blanks.AllBlank) {s : State} {span : Text}
    (hmode : s.mode.inCode = true) (hmeets : s.mode.Meets blanks) (hpending : s.Pending span) :
    ∃ t, s.Reads blanks t ∧ t.Pending (span ++ blanks) ∧ t.mode.inCode = true ∧
      t.start = s.start ∧ t.frame = s.frame ∧ t.outer = s.outer := by
  induction blanks generalizing s span with
  | nil => exact ⟨s, .nil s, by simpa using hpending, hmode, rfl, rfl, rfl⟩
  | cons c blanks ih =>
    obtain ⟨hc, hblanks⟩ := (Text.allBlank_cons ..).mp hblanks
    have hstep : s.step c = .ok (.reading ((s.see c).into .code)) := by
      rw [step_code hmode (hmeets c rfl), code_of_not_delimiter _ (isDelimiter_of_isBlank hc),
        modeAfter_blank hc]
    obtain ⟨t, hreads, hpending', hcode, hstart, hframe, houter⟩ :=
      ih hblanks (s := (s.see c).into .code) rfl (meets_code rfl _)
        ⟨(hpending.see c).seen, (hpending.see c).pos⟩
    exact ⟨t, .cons hstep hreads, by simpa using hpending', hcode, hstart, hframe, houter⟩

/-! ## Calls -/

/-- The text that has been read lies between the two ends of reading it. -/
theorem Reads.between {s t : State} {a : Text} (h : s.Reads a t) :
    t.between s.pos (s.pos + a.length) = a := by
  obtain ⟨hseen, hpos⟩ := h.seen
  have hlength : s.pos + a.length - s.pos = a.reverse.length := by simp
  rw [State.between, hseen, hpos, Nat.sub_self, List.drop_zero, hlength, List.take_left,
    List.reverse_reverse]

/-- From a state in which a slot is open, arguments are read up to their closing parenthesis, and
the frame then holds the keys that they mean. -/
def ReadsArguments (args : ArgumentList) : Prop :=
  ∀ (s : State) (frame : Frame), s.Rests frame → frame.slot = none → s.mode = .code →
    s.outer.length + Node.depthAll (args.keys s.pos) ≤ nestingLimit →
    ∃ inner t frame' last, args.text = inner ++ [')'] ∧ s.Reads inner t ∧ t.Rests frame' ∧
      frame'.slot = some last ∧
      frame'.keysWith last = frame.done.reverse ++ args.keys s.pos ∧ t.outer = s.outer

/-- The name of a call, the blanks behind it and its parenthesis open the call. -/
theorem Rests.reads_head {name blanks : Text} {s : State} {frame : Frame}
    (h : s.Rests frame) (hslot : frame.slot = none) (hcode : s.mode = .code) (hne : name ≠ [])
    (hname : Text.word (name ++ blanks) = name) (hblanks : blanks.AllBlank)
    (hroom : s.outer.length < nestingLimit) :
    ∃ t, s.Reads (name ++ blanks ++ ['(']) t ∧ t.Rests (.empty (t.pos - 1)) ∧ t.mode = .code ∧
      t.outer = (⟨s.pos, name⟩, frame) :: s.outer := by
  obtain ⟨span, hpending, htakes⟩ := h.takes
  -- The slot is open, so only blanks are pending before the name.
  obtain ⟨rfl, hspan⟩ := htakes.eq_of_slot hslot
  obtain ⟨t, hreads, hpending₁, hcode₁, hmeets, hstart, hframe, houter⟩ :=
    reads_chars hname h.inCode (meets_code hcode _) hpending
  obtain ⟨u, hreads', hpending₂, hcode₂, hstart', hframe', houter'⟩ :=
    reads_blanks hblanks hcode₁ hmeets hpending₁
  have hnoblank := Text.hasBlank_of_word_append hname
  have hroom' : u.outer.length < nestingLimit := by rwa [houter', houter]
  have hopen := (step_open_iff hcode₂ hpending₂ _).mpr
    ⟨span, name, blanks, rfl, hspan, hblanks, hne, hnoblank, hroom', rfl⟩
  refine ⟨_, (hreads.append hreads').append (.single hopen), .of_fresh rfl rfl rfl, rfl, ?_⟩
  rw [hstart', hstart, ← hpending.pos, hframe', hframe, houter', houter]

/-- A call fills the slot, provided that its arguments are read. -/
private theorem Rests.reads_call {name blanks : Text} {args : ArgumentList} {s : State}
    {frame : Frame} (hargs : ReadsArguments args) (h : s.Rests frame)
    (hslot : frame.slot = none) (hcode : s.mode = .code) (hne : name ≠ [])
    (hname : Text.word (name ++ blanks) = name) (hblanks : blanks.AllBlank)
    (hdepth : s.outer.length + ((Token.call name blanks args).key s.pos).depth ≤ nestingLimit) :
    ∃ t, s.Reads (Token.call name blanks args).text t ∧
      t.Rests { frame with slot := some ((Token.call name blanks args).key s.pos) } ∧
      t.mode = .code ∧ t.outer = s.outer := by
  simp only [Token.key, Node.depth] at hdepth
  -- The name, the blanks and the parenthesis take up room for one call.
  obtain ⟨t, hhead, hrests, hcode', houter⟩ :=
    h.reads_head hslot hcode hne hname hblanks (by omega)
  have hpos : t.pos = s.pos + name.length + blanks.length + 1 := by
    rw [hhead.seen.2]
    simp only [List.length_append, List.length_singleton]
    omega
  have hdepth' : t.outer.length + Node.depthAll (args.keys t.pos) ≤ nestingLimit := by
    rw [houter, hpos, List.length_cons]
    omega
  -- The arguments are read, and the parenthesis behind them closes the call.
  obtain ⟨inner, u, frame', last, htext, hinner, hrests', hlast, hkeys, houter'⟩ :=
    hargs t _ hrests rfl hcode' hdepth'
  obtain ⟨span, hpending, htakes⟩ := hrests'.takes
  have hstack : u.outer = (⟨s.pos, name⟩, frame) :: s.outer := houter'.trans houter
  have hclose := (step_close_call_iff hrests'.inCode hpending hstack _).mpr
    ⟨frame', last, htakes, hlast, hslot, rfl⟩
  have htext' : name ++ blanks ++ ['('] ++ inner ++ [')'] = (Token.call name blanks args).text := by
    simp [htext]
  have hreads := (hhead.append hinner).append (.single hclose)
  rw [htext'] at hreads
  refine ⟨_, hreads, .of_fresh rfl rfl ?_, rfl, rfl⟩
  -- The key that the parenthesis makes is the one that the call means.
  have hstop : u.pos + 1 = s.pos + (Token.call name blanks args).text.length := hreads.seen.2
  have hcontent : (u.see ')').between s.pos (u.pos + 1) = (Token.call name blanks args).text := by
    rw [hstop]
    exact hreads.between
  have hkey : u.closedCall ⟨s.pos, name⟩ (frame'.keysWith last) =
      (Token.call name blanks args).key s.pos := by
    rw [closedCall, hcontent, hkeys, hstop, hpos, Token.key]
    rfl
  rw [hkey]
  rfl

/-! ## Tokens and arguments -/

/-- A comma behind an argument opens the next slot. -/
theorem Rests.step_comma {s : State} {frame : Frame} {key : Key} (h : s.Rests frame)
    (hslot : frame.slot = some key) :
    ∃ t, s.step ',' = .ok (.reading t) ∧
      t.Rests { frame with done := key :: frame.done, slot := none } ∧ t.mode = .code ∧
      t.outer = s.outer := by
  obtain ⟨span, hpending, htakes⟩ := h.takes
  exact ⟨_, (step_comma_iff h.inCode hpending _).mpr ⟨frame, key, htakes, hslot, rfl⟩,
    .of_fresh rfl rfl rfl, rfl, rfl⟩

mutual

/-- A token that fits fills the slot with the key that it means. -/
theorem reads_token {after : Text} (token : Token) (hfits : token.Fits after) {s : State}
    {frame : Frame} (h : s.Rests frame) (hslot : frame.slot = none) (hcode : s.mode = .code)
    (hdepth : s.outer.length + (token.key s.pos).depth ≤ nestingLimit) :
    ∃ t, s.Reads token.text t ∧ t.Rests { frame with slot := some (token.key s.pos) } ∧
      t.mode.Meets after ∧ t.outer = s.outer := by
  match token with
  | .word chars =>
    rw [Token.Fits] at hfits
    obtain ⟨t, hreads, hrests, hmeets, houter⟩ :=
      h.reads_word hslot hfits.1 hfits.2 (meets_code hcode _)
    exact ⟨t, by simpa using hreads, by simpa [Token.key] using hrests, hmeets, houter⟩
  | .call name blanks args =>
    rw [Token.Fits] at hfits
    obtain ⟨hne, hname, hblanks, hargs, hfit⟩ := hfits
    obtain ⟨t, hreads, hrests, hcode', houter⟩ :=
      h.reads_call (reads_arguments args hargs hfit) hslot hcode hne hname hblanks hdepth
    exact ⟨t, hreads, hrests, meets_code hcode' _, houter⟩

/-- Arguments that fit are read up to their closing parenthesis. -/
theorem reads_arguments (args : ArgumentList) (hne : args ≠ [])
    (hfit : args.Fit) : ReadsArguments args := by
  match args with
  | [] => exact absurd rfl hne
  | ⟨before, token, after⟩ :: rest =>
    rw [ReadsArguments]
    intro s frame h hslot hcode hdepth
    rw [ArgumentList.Fit] at hfit
    obtain ⟨hbefore, hfits, hafter, hrest⟩ := hfit
    rw [ArgumentList.keys, Node.depthAll] at hdepth
    -- The trivia before the token.
    obtain ⟨t, hreads, hrests, houter, hmode⟩ := h.reads_trivia hbefore (meets_code hcode _)
    have hcode₁ : t.mode = .code := hmode.elim id (·.trans hcode)
    have hpos : s.pos + before.length = t.pos := hreads.seen.2.symm
    -- The token.
    obtain ⟨u, hreads₁, hrests₁, hmeets, houter₁⟩ :=
      reads_token token hfits hrests hslot hcode₁ (by rw [houter, ← hpos]; omega)
    -- The trivia after it.
    obtain ⟨v, hreads₂, hrests₂, houter₂, -⟩ := hrests₁.reads_trivia hafter hmeets
    have hall : s.Reads (before ++ token.text ++ after) v := (hreads.append hreads₁).append hreads₂
    have houter₃ : v.outer = s.outer := houter₂.trans (houter₁.trans houter)
    match rest with
    | [] =>
      -- The last argument: its parenthesis is not read here.
      refine ⟨before ++ token.text ++ after, v, _, token.key t.pos, ?_, hall, hrests₂, rfl, ?_,
        houter₃⟩
      · simp [Argument.text, closer]
      · simp [Frame.keysWith, hpos]
    | next :: rest =>
      -- A comma opens the slot of the next argument.
      obtain ⟨w, hcomma, hrests₃, hcode₃, houter₄⟩ := hrests₂.step_comma rfl
      have hread := hall.append (.single hcomma)
      have hpos' : s.pos + before.length + token.text.length + after.length + 1 = w.pos := by
        rw [hread.seen.2]
        simp only [List.length_append, List.length_singleton]
        omega
      obtain ⟨inner, x, frame', last, htext, hreads₃, hrests₄, hlast, hkeys, houter₅⟩ :=
        reads_arguments (next :: rest) (by simp) hrest w _ hrests₃ rfl hcode₃
          (by rw [houter₄, houter₃, ← hpos']; omega)
      refine ⟨before ++ token.text ++ after ++ [','] ++ inner, x, frame', last, ?_,
        hread.append hreads₃, hrests₄, hlast, ?_, houter₅.trans (houter₄.trans houter₃)⟩
      · rw [ArgumentList.text, htext]
        simp [closer]
      · rw [hkeys, ← hpos', ← hpos, ArgumentList.keys, List.reverse_cons, List.append_assoc]
        rfl

end

/-- Arguments that others follow are read with the comma behind each of them. -/
theorem Rests.reads_leading {args : ArgumentList} {s : State} {frame : Frame} (h : s.Rests frame)
    (hslot : frame.slot = none) (hcode : s.mode = .code) (hfit : args.Fit)
    (hdepth : s.outer.length + Node.depthAll (args.keys s.pos) ≤ nestingLimit) :
    ∃ t frame', s.Reads args.leading t ∧ t.Rests frame' ∧ frame'.slot = none ∧ t.mode = .code ∧
      frame'.done = (args.keys s.pos).reverse ++ frame.done ∧ t.outer = s.outer := by
  by_cases hne : args = []
  · subst hne
    exact ⟨s, frame, .nil s, h, hslot, hcode, by simp, rfl⟩
  · obtain ⟨inner, t, frame', last, htext, hreads, hrests, hlast, hkeys, houter⟩ :=
      reads_arguments args hne hfit s frame h hslot hcode hdepth
    -- All but the last delimiter has been read, and here a comma comes.
    obtain ⟨u, hcomma, hrests', hcode', houter'⟩ := hrests.step_comma hlast
    refine ⟨u, _, ?_, hrests', rfl, hcode', ?_, houter'.trans houter⟩
    · rw [ArgumentList.leading_of_text hne htext]
      exact hreads.append (.single hcomma)
    · have hreverse := congrArg List.reverse hkeys
      rwa [Frame.keysWith, List.reverse_reverse, List.reverse_append, List.reverse_reverse]
        at hreverse

/-- Scanning goes on with arguments that fit, and the layer has their keys after those that were
read before. -/
theorem Rests.scan_arguments {args : ArgumentList} {s : State} {frame : Frame} (h : s.Rests frame)
    (hslot : frame.slot = none) (hcode : s.mode = .code) (houter : s.outer = []) (rest : Text)
    (hne : args ≠ []) (hfit : args.Fit) (hdepth : Node.depthAll (args.keys s.pos) ≤ nestingLimit) :
    s.scan (args.text ++ rest) =
      .ok ⟨frame.done.reverse ++ args.keys s.pos, s.pos + args.text.length, rest⟩ := by
  obtain ⟨inner, t, frame', last, htext, hreads, hrests, hlast, hkeys, houter'⟩ :=
    reads_arguments args hne hfit s frame h hslot hcode (by simpa [houter] using hdepth)
  obtain ⟨span, hpending, htakes⟩ := hrests.takes
  have hclose := (step_close_layer_iff hrests.inCode hpending (houter'.trans houter) _).mpr
    ⟨frame', last, htakes, hlast, rfl⟩
  have hpos : t.pos + 1 = s.pos + args.text.length := by
    rw [hreads.seen.2, htext, List.length_append, List.length_singleton]
    omega
  rw [htext, List.append_assoc, hreads.scan, List.singleton_append, scan_cons, hclose, hpos, hkeys,
    htext]

/-- Scanning arguments that fit closes the layer with the keys that they mean. -/
theorem scan_arguments {args : ArgumentList} (paren : Nat) (rest : Text) (hne : args ≠ [])
    (hfit : args.Fit) (hdepth : Node.depthAll (args.keys (paren + 1)) ≤ nestingLimit) :
    (initial paren).scan (args.text ++ rest) =
      .ok ⟨args.keys (paren + 1), paren + 1 + args.text.length, rest⟩ := by
  have hrests : (initial paren).Rests (.empty paren) := .of_fresh rfl rfl rfl
  exact hrests.scan_arguments rfl rfl rfl rest hne hfit hdepth

end State

end Keymap
