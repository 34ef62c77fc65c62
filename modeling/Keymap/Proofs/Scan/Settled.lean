import Keymap.Proofs.Balanced
import Keymap.Proofs.Relocation
import Keymap.Proofs.Scan.Complete

/-!
# Settled arguments

An argument that its comma has ended is settled: whatever text comes, the layer keeps it. A step
changes only the innermost of the lists that are open, opens one inside it, or closes it. Over
balanced text the lists that were open before are the ones that are open afterwards, and so the
arguments behind balanced text are read as if anything else stood in its place.

## Key results

- `State.step_settled` — a step loses no finished argument of the layer
- `State.scan_settled` — the layer keeps its finished arguments, and has at least one more
- `State.reads_balanced` — balanced text leaves open what was open
- `State.Awaits.scan_balanced` — what follows balanced text is read whatever that text means
-/

namespace Keymap

namespace State

/-! ## The lists that are open -/

/-- The finished arguments of the open lists, innermost list first. -/
def stack (s : State) : List (List Key) :=
  s.frame.done :: s.outer.map (·.2.done)

/-- Filling a slot finishes no argument. -/
theorem fill_done {s : State} {frame filled : Frame} {key : Key}
    (h : s.fill frame key = .ok filled) : filled.done = frame.done := by
  rw [fill] at h
  split at h
  · obtain rfl := Except.ok.inj h
    rfl
  · cases h

/-- Ending a token finishes no argument. -/
theorem flush_done {s : State} {stop : Nat} {frame : Frame} (h : s.flush stop = .ok frame) :
    frame.done = s.frame.done := by
  simp only [flush] at h
  split at h
  · obtain rfl := Except.ok.inj h
    rfl
  · split at h
    · cases h
    · exact fill_done h

/-- Ending an argument leaves the arguments before it alone. -/
theorem endArgument_done {s : State} {offset : Nat} {frame : Frame} {key : Key}
    (h : s.endArgument offset = .ok (frame, key)) : frame.done = s.frame.done :=
  flush_done ((endArgument_eq_ok_iff ..).mp h).1

/-! ## Steps -/

variable [Machine]

/-- A comma finishes an argument of the innermost list. -/
theorem step_comma_done {s : State} {p : Progress} (hmode : s.mode.inCode = true)
    (h : s.step ',' = .ok p) :
    ∃ t key, p = .reading t ∧ t.mode = .code ∧ t.Rests t.frame ∧ t.frame.slot = none ∧
      t.frame.done = key :: s.frame.done ∧ t.outer = s.outer := by
  rw [step_code hmode (s.mode.completes_delimiter rfl), code, mapError_eq_ok_iff] at h
  simp only [separate, bind, Except.bind] at h
  split at h
  · cases h
  · rename_i result hend
    obtain ⟨frame, key⟩ := result
    have hdone : frame.done = s.frame.done := endArgument_done (s := s.see ',') hend
    refine ⟨_, key, (Except.ok.inj h).symm, rfl, .of_fresh rfl rfl rfl, rfl, ?_, rfl⟩
    show key :: frame.done = _
    rw [hdone]

/-- An opening parenthesis opens a list with nothing in it. -/
theorem step_open_stack {s : State} {p : Progress} (hmode : s.mode.inCode = true)
    (h : s.step '(' = .ok p) :
    ∃ t, p = .reading t ∧ t.mode = .code ∧ t.stack = [] :: s.stack := by
  rw [step_code hmode (s.mode.completes_delimiter rfl), code, mapError_eq_ok_iff] at h
  simp only [openCall] at h
  split at h
  · cases h
  · split at h
    · cases h
    · split at h
      · cases h
      · exact ⟨_, (Except.ok.inj h).symm, rfl, rfl⟩

/-- A closing parenthesis closes the layer, with one more argument, or the innermost call. -/
theorem step_close_stack {s : State} {p : Progress} (hmode : s.mode.inCode = true)
    (h : s.step ')' = .ok p) :
    (∃ key, s.outer = [] ∧ p = .closed (s.frame.done.reverse ++ [key])) ∨
      ∃ t, p = .reading t ∧ t.mode = .code ∧ s.stack = s.frame.done :: t.stack := by
  rw [step_code hmode (s.mode.completes_delimiter rfl), code, mapError_eq_ok_iff] at h
  simp only [close, bind, Except.bind] at h
  split at h
  · cases h
  · rename_i result hend
    obtain ⟨frame, key⟩ := result
    have hdone : frame.done = s.frame.done := endArgument_done (s := s.see ')') hend
    have houter : (s.see ')').outer = s.outer := rfl
    rw [houter] at h
    -- At depth zero the layer closes; deeper, the call goes into the frame of its parent.
    cases hcalls : s.outer with
    | nil =>
      simp only [hcalls] at h
      refine .inl ⟨key, rfl, ?_⟩
      rw [← hdone, ← List.reverse_cons]
      exact (Except.ok.inj h).symm
    | cons call outer =>
      obtain ⟨head, parent⟩ := call
      simp only [hcalls] at h
      split at h
      · cases h
      · rename_i parent' hfill
        refine .inr ⟨_, (Except.ok.inj h).symm, rfl, ?_⟩
        -- Filling a slot adds nothing to the keys that are done.
        show s.frame.done :: s.outer.map (·.2.done) =
          s.frame.done :: parent'.done :: outer.map (·.2.done)
        rw [hcalls, List.map_cons, fill_done hfill]

/-- A character that delimits nothing changes none of the lists. -/
theorem step_other_stack {s : State} {c : Char} {p : Progress} (hmode : s.mode.inCode = true)
    (hc : isDelimiter c = false) (h : s.step c = .ok p) :
    ∃ t, p = .reading t ∧ t.stack = s.stack ∧
      t.mode = if s.mode.completes c then modeAfterPair c else modeAfter c := by
  split <;> rename_i hcompletes
  · rw [step_pair hcompletes, skip] at h
    split at h
    · -- A pair flushes what is pending, which does not end a key.
      rename_i frame hflush
      refine ⟨_, (Except.ok.inj h).symm, ?_, rfl⟩
      have hdone : frame.done = s.frame.done := flush_done (s := s.see c) hflush
      show frame.done :: s.outer.map (·.2.done) = _
      rw [hdone]
      rfl
    · cases h
  · rw [step_code hmode (Bool.eq_false_iff.mpr hcompletes), code_of_not_delimiter _ hc] at h
    exact ⟨_, (Except.ok.inj h).symm, rfl, rfl⟩

/-- A character of a comment changes none of the lists. -/
theorem step_comment_stack {s : State} {c : Char} {p : Progress} (hmode : s.mode.inCode = false)
    (h : s.step c = .ok p) : ∃ t, p = .reading t ∧ t.stack = s.stack := by
  cases hm : s.mode with
  | code | slash | backslash => simp [hm, Mode.inCode] at hmode
  | block | star | line =>
    simp only [step, hm] at h
    split at h
    all_goals first
      | exact ⟨_, (Except.ok.inj h).symm, rfl⟩
      | simp_all

/-! ## The layer's own list -/

/-- A step loses no finished argument of the outermost list, which is that of the layer. -/
theorem step_settled {s : State} {c : Char} {p : Progress} {calls : List (List Key)}
    {done : List Key} (h : s.step c = .ok p) (hstack : s.stack = calls ++ [done]) :
    (∃ key, p = .closed (done.reverse ++ [key])) ∨
      ∃ t calls' more, p = .reading t ∧ t.stack = calls' ++ [more ++ done] := by
  -- What a step that changes none of the lists leaves behind.
  have unchanged {t : State} (ht : t.stack = s.stack) :
      ∃ calls' more, t.stack = calls' ++ [more ++ done] := ⟨calls, [], ht.trans hstack⟩
  cases hmode : s.mode.inCode with
  | false =>
    obtain ⟨t, rfl, ht⟩ := step_comment_stack hmode h
    exact .inr ⟨t, by simpa using unchanged ht⟩
  | true =>
    by_cases hcomma : c = ','
    · subst hcomma
      obtain ⟨t, key, rfl, -, -, -, hdone, houter⟩ := step_comma_done hmode h
      refine .inr ⟨t, ?_⟩
      rw [stack, hdone, houter]
      rcases List.cons_eq_append_iff.mp hstack with ⟨-, hlast⟩ | ⟨inner, -, hinner⟩
      · obtain ⟨rfl, hnil⟩ := List.cons.inj hlast
        exact ⟨[], [key], rfl, by rw [← hnil]; rfl⟩
      · exact ⟨(key :: s.frame.done) :: inner, [], rfl, by rw [hinner]; rfl⟩
    by_cases hopen : c = '('
    · subst hopen
      obtain ⟨t, rfl, -, ht⟩ := step_open_stack hmode h
      exact .inr ⟨t, [] :: calls, [], rfl, by rw [ht, hstack]; rfl⟩
    by_cases hclose : c = ')'
    · subst hclose
      rcases step_close_stack hmode h with ⟨key, houter, rfl⟩ | ⟨t, rfl, -, ht⟩
      · -- The layer was the only open list.
        rw [stack, houter] at hstack
        rcases List.cons_eq_append_iff.mp hstack with ⟨-, hlast⟩ | ⟨inner, -, hinner⟩
        · obtain ⟨rfl, -⟩ := List.cons.inj hlast
          exact .inl ⟨key, rfl⟩
        · simp at hinner
      · rw [ht] at hstack
        rcases List.cons_eq_append_iff.mp hstack with ⟨-, hlast⟩ | ⟨inner, -, hinner⟩
        · exact absurd (List.cons.inj hlast).2 (by simp [stack])
        · exact .inr ⟨t, inner, [], rfl, hinner⟩
    have hdelimiter : isDelimiter c = false := by simp [isDelimiter, hcomma, hopen, hclose]
    obtain ⟨t, rfl, ht, -⟩ := step_other_stack hmode hdelimiter h
    exact .inr ⟨t, by simpa using unchanged ht⟩

/-- Scanning that closes the layer begins with a step that succeeds. -/
theorem exists_step_of_scan {s : State} {c : Char} {rest : Text} {closed : Closed}
    (h : s.scan (c :: rest) = .ok closed) :
    ∃ p, s.step c = .ok p ∧
      match p with
      | .closed keys => closed = ⟨keys, s.pos + 1, rest⟩
      | .reading t => t.scan rest = .ok closed := by
  rw [scan_cons] at h
  split at h
  · cases h
  · rename_i keys hstep
    exact ⟨_, hstep, (Except.ok.inj h).symm⟩
  · rename_i t hstep
    exact ⟨_, hstep, h⟩

/-- The layer keeps its finished arguments, whatever text comes, and has at least one more. -/
theorem scan_settled {s : State} {text : Text} {closed : Closed} {calls : List (List Key)}
    {done : List Key} (h : s.scan text = .ok closed) (hstack : s.stack = calls ++ [done]) :
    ∃ more, more ≠ [] ∧ closed.keys = done.reverse ++ more := by
  induction text generalizing s calls done with
  | nil => cases h
  | cons c rest ih =>
    obtain ⟨p, hstep, hp⟩ := exists_step_of_scan h
    rcases step_settled hstep hstack with ⟨key, rfl⟩ | ⟨t, calls', more, rfl, ht⟩
    · subst hp
      exact ⟨[key], by simp, rfl⟩
    · obtain ⟨later, hne, hkeys⟩ := ih hp ht
      refine ⟨more.reverse ++ later, by simp [hne], ?_⟩
      rw [hkeys, List.reverse_append, List.append_assoc]

/-! ## Balanced text -/

/-- A comment leaves the lists as they are. -/
theorem reads_comment {comment : Text} (hcomment : Comment comment) {s : State}
    (hmode : s.mode.inCode = true) (hmeets : s.mode ≠ .slash) {after : Text} {closed : Closed}
    (h : s.scan (comment ++ after) = .ok closed) :
    ∃ t, s.Reads comment t ∧ t.mode = .code ∧ t.stack = s.stack := by
  obtain ⟨d, body, hd, rfl⟩ := hcomment.exists_cons
  have hpair : isPair '/' d = true := by rcases hd with rfl | rfl <;> rfl
  -- The slash begins the pair, since the mode is not in the middle of one.
  obtain ⟨p, hstep, hp⟩ := exists_step_of_scan h
  obtain ⟨t, rfl, ht, htmode⟩ := step_other_stack hmode rfl hstep
  have hcompletes : s.mode.completes '/' = false := by
    cases hm : s.mode <;> simp_all [Mode.completes, isPair]
  rw [hcompletes, if_neg Bool.false_ne_true] at htmode
  have hslash : t.mode = .slash := htmode
  -- The second half ends the token before the pair.
  obtain ⟨p', hstep', hp'⟩ := exists_step_of_scan hp
  have hdelimiter : isDelimiter d = false := by rcases hd with rfl | rfl <;> rfl
  obtain ⟨u, rfl, hu, humode⟩ := step_other_stack (by rw [hslash]; rfl) hdelimiter hstep'
  have hsecond : t.mode.completes d = true := by
    rw [hslash]
    exact hpair
  rw [if_pos hsecond] at humode
  have hreads : s.Reads ['/', d] u := .cons hstep (.single hstep')
  have hsame : u.stack = s.stack := hu.trans ht
  -- The rest of the comment is left at its end.
  cases hcomment with
  | @block body hbody =>
    obtain ⟨v, hbody', hcode, -, hframe, houter⟩ := reads_block humode hbody
    exact ⟨v, hreads.append hbody', hcode, by rw [stack, hframe, houter]; exact hsame⟩
  | @line body hbody =>
    obtain ⟨v, hbody', hcode, -, hframe, houter⟩ := reads_line humode hbody
    exact ⟨v, hreads.append hbody', hcode, by rw [stack, hframe, houter]; exact hsame⟩

omit [Machine] in
/-- A scanner in plain code is in code. -/
theorem inCode_of_code {s : State} (h : s.mode = .code) : s.mode.inCode = true := by
  rw [h]
  rfl

omit [Machine] in
/-- A scanner in plain code is not behind a slash. -/
theorem not_slash_of_code {s : State} {p : Prop} (h : s.mode = .code) (hslash : s.mode = .slash) :
    p :=
  absurd (h.symm.trans hslash) (by decide)

/-- A character that delimits nothing and completes no comment is followed by code. Only behind a
slash it can be that a comment is about to begin. -/
theorem step_other_code {s : State} {c : Char} {p : Progress} (hmode : s.mode.inCode = true)
    (hmeets : s.mode = .slash → c ≠ '*' ∧ c ≠ '/') (hc : isDelimiter c = false)
    (h : s.step c = .ok p) :
    ∃ t, p = .reading t ∧ t.stack = s.stack ∧ t.mode.inCode = true ∧
      (t.mode = .slash → c = '/') := by
  obtain ⟨t, rfl, ht, htmode⟩ := step_other_stack hmode hc h
  refine ⟨t, rfl, ht, ?_⟩
  rw [htmode]
  split <;> rename_i hcompletes
  · -- A pair in code is a line break behind a backslash.
    cases hm : s.mode with
    | slash =>
      obtain ⟨hstar, hslash⟩ := hmeets hm
      simp [hm, Mode.completes, isPair, hstar, hslash] at hcompletes
    | backslash =>
      have hnewline : c = '\n' := by simpa [hm, Mode.completes, isPair] using hcompletes
      rw [hnewline]
      exact ⟨rfl, fun hslash => absurd hslash (by decide)⟩
    | code | block | star | line => simp [hm, Mode.completes] at hcompletes
  · refine ⟨inCode_modeAfter c, fun hafter => ?_⟩
    unfold modeAfter at hafter
    split at hafter
    · assumption
    · split at hafter <;> cases hafter

/-- Balanced text leaves open the lists that were open, and only finishes arguments of the innermost
one. -/
theorem reads_balanced {text : Text} (hbalanced : Balanced text) {s : State} {done : List Key}
    {calls : List (List Key)} (hstack : s.stack = done :: calls) (hmode : s.mode.inCode = true)
    (hmeets : s.mode = .slash → text.head? ≠ some '*' ∧ text.head? ≠ some '/') {after : Text}
    {closed : Closed} (h : s.scan (text ++ after) = .ok closed) :
    ∃ t more, s.Reads text t ∧ t.mode.inCode = true ∧ t.stack = (more ++ done) :: calls := by
  -- The induction is on how the text is balanced, so the parts of a call are scanned one by one.
  induction hbalanced generalizing s done calls after with
  | nil => exact ⟨s, [], .nil s, hmode, hstack⟩
  | @char c rest hopen hclose hslash _ ih =>
    obtain ⟨p, hstep, hp⟩ := exists_step_of_scan h
    -- A comma ends a key of the innermost list; any other character adds to what is pending.
    by_cases hcomma : c = ','
    · subst hcomma
      obtain ⟨t, key, rfl, htmode, -, -, hdone, houter⟩ := step_comma_done hmode hstep
      obtain ⟨hdone', hcalls⟩ := List.cons.inj hstack
      have ht : t.stack = (key :: done) :: calls := by rw [stack, hdone, houter, hdone', hcalls]
      obtain ⟨u, more, hreads, humode, hu⟩ :=
        ih ht (inCode_of_code htmode) (not_slash_of_code htmode) hp
      exact ⟨u, more ++ [key], .cons hstep hreads, humode, by rw [hu, List.append_cons]⟩
    · have hdelimiter : isDelimiter c = false := by simp [isDelimiter, hcomma, hopen, hclose]
      obtain ⟨t, rfl, ht, htmode, htslash⟩ := step_other_code hmode
        (fun hm => by simpa using hmeets hm) hdelimiter hstep
      obtain ⟨u, more, hreads, humode, hu⟩ :=
        ih (ht.trans hstack) htmode (fun hm => hslash (htslash hm)) hp
      exact ⟨u, more, .cons hstep hreads, humode, hu⟩
  | @comment comment rest hcomment _ ih =>
    -- A slash before a comment would be one half of the comment's own opening.
    have hnotslash : s.mode ≠ .slash := by
      intro hm
      obtain ⟨d, body, -, rfl⟩ := hcomment.exists_cons
      exact (hmeets hm).2 rfl
    rw [List.append_assoc] at h
    obtain ⟨t, hreads, htmode, ht⟩ := reads_comment hcomment hmode hnotslash h
    rw [hreads.scan] at h
    obtain ⟨u, more, hreads', humode, hu⟩ :=
      ih (ht.trans hstack) (inCode_of_code htmode) (not_slash_of_code htmode) h
    exact ⟨u, more, hreads.append hreads', humode, hu⟩
  | @nest inner rest _ _ ihinner ihrest =>
    obtain ⟨p, hstep, hp⟩ := exists_step_of_scan h
    obtain ⟨t, rfl, htmode, ht⟩ := step_open_stack hmode hstep
    rw [hstack] at ht
    have hp' : t.scan (inner ++ (')' :: rest ++ after)) = .ok closed := by
      simpa using hp
    obtain ⟨u, more, hinner, humode, hu⟩ :=
      ihinner ht (inCode_of_code htmode) (not_slash_of_code htmode) hp'
    rw [hinner.scan] at hp'
    -- The parenthesis closes the call, because another list is open around it.
    obtain ⟨p'', hclose, hp''⟩ := exists_step_of_scan hp'
    rcases step_close_stack humode hclose with ⟨key, houter, -⟩ | ⟨v, rfl, hvmode, hv⟩
    · rw [stack, houter] at hu
      exact absurd (List.cons.inj hu).2 (by simp)
    · obtain ⟨-, hv'⟩ := List.cons.inj (hv.symm.trans hu)
      obtain ⟨w, more', hrest, hwmode, hw⟩ :=
        ihrest hv' (inCode_of_code hvmode) (not_slash_of_code hvmode) hp''
      refine ⟨w, more', ?_, hwmode, hw⟩
      exact .cons hstep (hinner.append (.cons hclose hrest))

/-! ## At the place of an argument -/

/-- The scanner has come to where an argument of the layer may begin, behind the given ones. -/
structure Awaits (s : State) (keys : List Key) : Prop where
  rests : s.Rests s.frame
  slot : s.frame.slot = none
  mode : s.mode = .code
  outer : s.outer = []
  done : s.frame.done = keys.reverse

namespace Awaits

variable {s : State} {keys : List Key} {closed : Closed}

omit [Machine] in
/-- The scanner awaits an argument where it rests with an open slot of the layer. -/
theorem of_rests {frame : Frame} (h : s.Rests frame) (hslot : frame.slot = none)
    (hmode : s.mode = .code) (houter : s.outer = []) (hdone : frame.done = keys.reverse) :
    s.Awaits keys := by
  obtain ⟨span, -, htakes⟩ := h.takes
  obtain ⟨rfl, -⟩ := htakes.eq_of_slot hslot
  exact ⟨h, hslot, hmode, houter, hdone⟩

/-- Behind arguments with a comma after each of them, and trivia, the next argument is awaited. -/
theorem of_leading {args : ArgumentList} {trivia : Text} (paren : Nat) (hfit : args.Fit)
    (hdepth : Node.depthAll (args.keys 0) ≤ nestingLimit) (htrivia : Trivia trivia) :
    ∃ t, (initial paren).Reads (args.leading ++ trivia) t ∧ t.Awaits (args.keys (paren + 1)) := by
  have hrests : (initial paren).Rests (.empty paren) := .of_fresh rfl rfl rfl
  have hdepth' : (initial paren).outer.length + Node.depthAll (args.keys (initial paren).pos) ≤
      nestingLimit := by
    rw [ArgumentList.depthAll_keys _ _ 0]
    simpa [initial] using hdepth
  obtain ⟨s, frame, hreads, hrests', hslot, hcode, hdone, houter⟩ :=
    hrests.reads_leading rfl rfl hfit hdepth'
  obtain ⟨t, hreads', hrests'', houter', hmode⟩ :=
    hrests'.reads_trivia htrivia (meets_code hcode _)
  refine ⟨t, hreads.append hreads', .of_rests hrests'' hslot (hmode.elim id (·.trans hcode))
    (houter'.trans houter) ?_⟩
  rw [hdone]
  exact List.append_nil _

/-- Whatever text comes, the layer has the keys before the argument, and at least one more. -/
theorem scan_keys (h : s.Awaits keys) {text : Text} (hscan : s.scan text = .ok closed) :
    ∃ more, more ≠ [] ∧ closed.keys = keys ++ more := by
  have hstack : s.stack = [] ++ [keys.reverse] := by rw [stack, h.outer, h.done]; rfl
  obtain ⟨more, hne, hkeys⟩ := scan_settled hscan hstack
  exact ⟨more, hne, by rw [hkeys, List.reverse_reverse]⟩

/-- What follows balanced text up to the end of the layer is read whatever that text means. The text
itself becomes at least one argument. -/
theorem scan_balanced (h : s.Awaits keys) {text : Text} (hbalanced : Balanced text)
    {args : ArgumentList} (hfit : args.Fit) (hdepth : Node.depthAll (args.keys 0) ≤ nestingLimit)
    {rest : Text} (hscan : s.scan (text ++ closer args :: (args.text ++ rest)) = .ok closed) :
    ∃ more, more ≠ [] ∧ closed = ⟨keys ++ more ++ args.keys (s.pos + text.length + 1),
      s.pos + text.length + 1 + args.text.length, rest⟩ := by
  have hstack : s.stack = [keys.reverse] := by rw [stack, h.outer, h.done]; rfl
  obtain ⟨t, more, hreads, htmode, ht⟩ :=
    reads_balanced hbalanced hstack (inCode_of_code h.mode) (not_slash_of_code h.mode) hscan
  obtain ⟨hdone, hcalls⟩ := List.cons.inj ht
  have houter : t.outer = [] := List.map_eq_nil_iff.mp hcalls
  have hpos : t.pos = s.pos + text.length := hreads.seen.2
  rw [hreads.scan] at hscan
  obtain ⟨p, hstep, hp⟩ := exists_step_of_scan hscan
  match args with
  | [] =>
    -- The parenthesis closes the layer.
    rcases step_close_stack htmode hstep with ⟨key, -, rfl⟩ | ⟨u, -, -, hu⟩
    · subst hp
      refine ⟨more.reverse ++ [key], by simp, ?_⟩
      simp [hdone, hpos]
    · rw [ht] at hu
      exact absurd (List.cons.inj hu).2 (by simp [stack])
  | arg :: args =>
    -- The comma opens the slot of the first of the arguments.
    obtain ⟨u, key, rfl, hcode, hrests, hslot, hdone', houter'⟩ := step_comma_done htmode hstep
    have hupos : u.pos = s.pos + text.length + 1 := by rw [(step_seen hstep).2, hpos]
    rw [← ArgumentList.depthAll_keys _ u.pos] at hdepth
    have hlater := hrests.scan_arguments hslot hcode (houter'.trans houter) rest
      (List.cons_ne_nil arg args) hfit hdepth
    refine ⟨more.reverse ++ [key], by simp, ?_⟩
    rw [← Except.ok.inj (hlater.symm.trans hp), hdone', hdone, hupos]
    simp

end Awaits

end State

end Keymap
