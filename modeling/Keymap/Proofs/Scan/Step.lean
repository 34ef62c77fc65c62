import Keymap.Layer.Scan
import Keymap.Proofs.Word

/-!
# Steps of the scanner

What one character does to the scanner, in terms of the text that is pending: the characters since
the place where the next token may begin. The pending text is looked at only when a delimiter or
a pair comes. It is then blank, or it is one word with blanks around it, or there is a fault.

## Key results

- `State.flush_eq_ok_iff` — flushing succeeds exactly on blanks and on a single word
- `State.step_code`, `State.step_pair` — a step outside comments is one of two things
- `State.step_seen` — every step remembers its character
- `State.Reads.scan` — scanning goes on from the state that a text leads to
-/

namespace Keymap

/-! ## Trimming -/

namespace Text

/-- A text is its trimmed part with blanks around it, and the margin counts those before it. -/
theorem exists_trim (span : Text) :
    ∃ before after : Text, span = before ++ span.trim ++ after ∧ before.AllBlank ∧
      after.AllBlank ∧ before.length = span.margin := by
  obtain ⟨after, heq, hafter⟩ := trim_eq span
  have htake : span.take span.margin = span.takeWhile isBlank :=
    (List.prefix_iff_eq_take.mp (List.takeWhile_prefix isBlank)).symm
  rw [htake] at heq
  refine ⟨span.takeWhile isBlank, after, heq, ?_, hafter, rfl⟩
  intro c hc
  exact List.all_eq_true.mp List.all_takeWhile c hc

/-- A text without blanks stays as it is when blanks are dropped from it. -/
private theorem dropWhile_isBlank_of_hasBlank {w : Text} (h : w.hasBlank = false) :
    w.dropWhile isBlank = w := by
  cases w with
  | nil => rfl
  | cons c w =>
    simp only [hasBlank, List.any_cons, Bool.or_eq_false_iff] at h
    rw [List.dropWhile_cons_of_neg (by simp [h.1])]

/-- Trimming takes away exactly the blanks around a text without blanks. -/
theorem trim_append {before w after : Text} (hbefore : before.AllBlank)
    (hw : w.hasBlank = false) (hafter : after.AllBlank) :
    (before ++ w ++ after).trim = w := by
  have hleft : (before ++ w ++ after).dropWhile isBlank = (w ++ after).dropWhile isBlank := by
    rw [List.append_assoc, List.dropWhile_append_of_pos hbefore]
  rw [trim, hleft]
  -- An empty word is blanks between blanks; any other stops the trimming at both of its ends.
  cases w with
  | nil =>
    have hnil : after.dropWhile isBlank = [] := by
      simpa using @List.dropWhile_append_of_pos _ isBlank after [] hafter
    rw [List.nil_append, hnil]
    rfl
  | cons c w =>
    have hc : isBlank c = false := by
      simp only [hasBlank, List.any_cons, Bool.or_eq_false_iff] at hw
      exact hw.1
    have hrev : Text.hasBlank (c :: w).reverse = false := by
      simpa [hasBlank, and_comm] using hw
    have hblank : ∀ d ∈ after.reverse, isBlank d = true := fun d hd =>
      hafter d (List.mem_reverse.mp hd)
    rw [List.cons_append, List.dropWhile_cons_of_neg (by simp [hc]), trimRight,
      ← List.cons_append, List.reverse_append, List.dropWhile_append_of_pos hblank,
      dropWhile_isBlank_of_hasBlank hrev, List.reverse_reverse]

/-- The blanks before a word are the margin. -/
theorem margin_append {before w : Text} (after : Text) (hbefore : before.AllBlank)
    (hne : w ≠ []) (hw : w.hasBlank = false) : (before ++ w ++ after).margin = before.length := by
  cases w with
  | nil => exact absurd rfl hne
  | cons c w =>
    have hc : isBlank c = false := by
      simp only [hasBlank, List.any_cons, Bool.or_eq_false_iff] at hw
      exact hw.1
    rw [margin, List.append_assoc, List.takeWhile_append_of_pos hbefore, List.cons_append,
      List.takeWhile_cons_of_neg (by simp [hc]), List.append_nil]

end Text

/-! ## What is pending -/

/-- The text that the scanner has seen since the place where the next token may begin. -/
structure State.Pending (s : State) (span : Text) : Prop where
  seen : span.reverse <+: s.seen
  pos : s.pos = s.start + span.length

/-- What becomes of a frame when a pending text ends: blanks leave it alone, and a word with blanks
around it goes into the open slot. -/
inductive Frame.Takes (frame : Frame) (start : Nat) (span : Text) : Frame → Prop where
  | blank : span.AllBlank → Frame.Takes frame start span frame
  | word {before w after : Text} : span = before ++ w ++ after → before.AllBlank →
      after.AllBlank → w ≠ [] → w.hasBlank = false → frame.slot = none →
      Frame.Takes frame start span
        { frame with
          slot := some (.word w (start + before.length) (start + before.length + w.length)) }

namespace Frame

/-- A frame that has room left after a pending text has taken nothing. -/
theorem Takes.eq_of_slot {frame frame' : Frame} {start : Nat} {span : Text}
    (h : frame.Takes start span frame') (hslot : frame'.slot = none) :
    frame' = frame ∧ span.AllBlank := by
  cases h with
  | blank hspan => exact ⟨rfl, hspan⟩
  | word => exact nomatch hslot

/-- One more blank changes nothing. -/
theorem Takes.snoc {frame frame' : Frame} {start : Nat} {span : Text} {c : Char}
    (h : frame.Takes start span frame') (hc : isBlank c = true) :
    frame.Takes start (span ++ [c]) frame' := by
  have hlast : Text.AllBlank [c] := by simpa using hc
  cases h with
  | blank hspan => exact .blank ((Text.allBlank_append ..).mpr ⟨hspan, hlast⟩)
  | word heq hbefore hafter hne hw hslot =>
    refine .word ?_ hbefore ((Text.allBlank_append ..).mpr ⟨hafter, hlast⟩) hne hw hslot
    rw [heq, List.append_assoc]

end Frame

namespace State

/-- The pending text lies between its two ends. -/
theorem between_of_pending {s : State} {span more : Text} (h : s.Pending (span ++ more)) :
    s.between s.start (s.start + span.length) = span := by
  obtain ⟨older, hseen⟩ := h.seen
  have hpos := h.pos
  rw [List.length_append] at hpos
  have hdrop : s.pos - (s.start + span.length) = more.reverse.length := by
    rw [List.length_reverse]
    omega
  have htake : s.start + span.length - s.start = span.reverse.length := by
    rw [List.length_reverse]
    omega
  rw [between, ← hseen, hdrop, htake, List.reverse_append, List.append_assoc, List.drop_left,
    List.take_left, List.reverse_reverse]

/-- Flushing succeeds exactly on blanks and, if the slot is open, on a single word. -/
theorem flush_eq_ok_iff {s : State} {span more : Text} {frame : Frame}
    (h : s.Pending (span ++ more)) :
    s.flush (s.start + span.length) = .ok frame ↔ s.frame.Takes s.start span frame := by
  obtain ⟨before, after, hspan, hbefore, hafter, hmargin⟩ := span.exists_trim
  simp only [flush, between_of_pending h]
  constructor
  · intro hok
    split at hok
    · -- Nothing but blanks is pending.
      rename_i hempty
      obtain rfl := Except.ok.inj hok
      rw [List.isEmpty_iff.mp hempty] at hspan
      apply Frame.Takes.blank
      rw [hspan, List.append_nil]
      exact (Text.allBlank_append ..).mpr ⟨hbefore, hafter⟩
    · rename_i hne
      split at hok
      · exact nomatch hok
      · -- One word is pending, and it goes into the slot if that is open.
        rename_i hblank
        rw [fill] at hok
        split at hok
        · rename_i hslot
          obtain rfl := Except.ok.inj hok
          rw [← hmargin]
          exact .word hspan hbefore hafter (by simpa using hne) (by simpa using hblank) hslot
        · exact nomatch hok
  · intro htakes
    -- Conversely the trimmed text is computed from the parts.
    cases htakes with
    | blank hall =>
      have htrim : span.trim = [] := by
        simpa using @Text.trim_append span [] [] hall rfl (by simp)
      simp [htrim]
    | word heq hb ha hne hw hslot =>
      have htrim : span.trim = _ := heq ▸ Text.trim_append hb hw ha
      have hmargin' : span.margin = _ := heq ▸ Text.margin_append _ hb hne hw
      simp [htrim, hmargin', hne, hw, fill, hslot]

end State

/-! ## Modes -/

/-- Whether a mode is outside comments. -/
def Mode.inCode : Mode → Bool
  | .code | .slash | .backslash => true
  | .block | .star | .line => false

/-- Whether a character is the second half of a pair that a mode is in the middle of. -/
def Mode.completes : Mode → Char → Bool
  | .slash, c => isPair '/' c
  | .backslash, c => isPair '\\' c
  | _, _ => false

/-- No text that begins with the given one completes a pair. -/
def Mode.Meets (mode : Mode) (text : Text) : Prop :=
  ∀ c ∈ text.head?, mode.completes c = false

/-- The mode after a character that completes no pair and is no delimiter. -/
def modeAfter (c : Char) : Mode :=
  if c = '/' then .slash else if c = '\\' then .backslash else .code

/-- The mode after a pair with the given second half. -/
def modeAfterPair (d : Char) : Mode :=
  if d = '*' then .block else if d = '/' then .line else .code

theorem inCode_modeAfter (c : Char) : (modeAfter c).inCode = true := by
  unfold modeAfter
  split
  · rfl
  · split <;> rfl

/-- The mode after a character is completed by what makes a pair with it. -/
theorem completes_modeAfter (c d : Char) : (modeAfter c).completes d = isPair c d := by
  unfold modeAfter
  split
  · rename_i h
    rw [h]
    rfl
  · split
    · rename_i h
      rw [h]
      rfl
    · rename_i hslash hback
      simp [Mode.completes, isPair, hslash, hback]

/-- A blank leaves nothing open. -/
theorem modeAfter_blank {c : Char} (hc : isBlank c = true) : modeAfter c = .code := by
  have hslash : c ≠ '/' := by rintro rfl; exact absurd hc (by decide)
  have hback : c ≠ '\\' := by rintro rfl; exact absurd hc (by decide)
  simp [modeAfter, hslash, hback]

/-- A delimiter completes no pair. -/
theorem Mode.completes_delimiter (mode : Mode) {d : Char} (hd : isDelimiter d = true) :
    mode.completes d = false := by
  cases mode <;> first | rfl | exact isPair_delimiter hd

namespace State

/-! ## Steps inside and outside comments -/

/-- Inside a comment every character is read. -/
theorem step_comment [Machine] {s : State} (hmode : s.mode.inCode = false) (c : Char) :
    ∃ t, s.step c = .ok (.reading t) := by
  simp only [step]
  split <;> rename_i hm <;> simp_all [Mode.inCode]
  cases h : s.mode <;> simp_all

/-- A character that completes no pair is read as code. -/
theorem step_code [Machine] {s : State} {c : Char} (hmode : s.mode.inCode = true)
    (hc : s.mode.completes c = false) : s.step c = (s.see c).code c := by
  simp only [step]
  split <;> rename_i hm <;> simp_all [Mode.inCode, Mode.completes, isPair]

/-- The second half of a pair ends what is pending before the pair. -/
theorem step_pair [Machine] {s : State} {c : Char} (hc : s.mode.completes c = true) :
    s.step c = (s.see c).skip (modeAfterPair c) := by
  cases hm : s.mode with
  | slash =>
    have hsecond : c = '*' ∨ c = '/' := by simpa [hm, Mode.completes, isPair] using hc
    rcases hsecond with rfl | rfl
    · simp [step, hm, modeAfterPair]
    · simp [step, hm, modeAfterPair]
  | backslash =>
    have hnewline : c = '\n' := by simpa [hm, Mode.completes, isPair] using hc
    simp [step, hm, hnewline, modeAfterPair]
  | code | block | star | line => simp [hm, Mode.completes] at hc

/-- A character of code that is no delimiter only changes the mode. -/
theorem code_of_not_delimiter [Machine] (s : State) {c : Char} (hc : isDelimiter c = false) :
    s.code c = .ok (.reading (s.into (modeAfter c))) := by
  simp only [isDelimiter, Bool.or_eq_false_iff, beq_eq_false_iff_ne] at hc
  simp only [code]
  split
  · exact absurd rfl hc.1.1
  · exact absurd rfl hc.1.2
  · exact absurd rfl hc.2
  · rfl
  · rfl
  · rename_i hslash hback
    have hafter : modeAfter c = .code := by
      rw [modeAfter, if_neg hslash, if_neg hback]
    rw [hafter]
    rfl

/-! ## Steps at delimiters -/

/-- The pending text goes on with the character that is seen. -/
theorem Pending.see {s : State} {span : Text} (h : s.Pending span) (c : Char) :
    (s.see c).Pending (span ++ [c]) where
  seen := by
    obtain ⟨older, hseen⟩ := h.seen
    exact ⟨older, by simp [State.see, ← hseen]⟩
  pos := by
    have := h.pos
    simp only [State.see, List.length_append, List.length_singleton]
    omega

/-- An argument ends well if flushing succeeds and leaves the slot filled. -/
theorem endArgument_eq_ok_iff (s : State) (offset : Nat) (frame : Frame) (key : Key) :
    s.endArgument offset = .ok (frame, key) ↔
      s.flush offset = .ok frame ∧ frame.slot = some key := by
  simp only [endArgument, bind, Except.bind]
  cases s.flush offset with
  | error fault => simp
  | ok frame' =>
    cases hslot : frame'.slot with
    | none =>
      simp only [hslot, reduceCtorEq, false_iff, Except.ok.injEq, not_and]
      rintro rfl
      simp [hslot]
    | some key' =>
      simp only [hslot, Except.ok.injEq, Prod.mk.injEq]
      constructor
      · intro hparts
        obtain ⟨rfl, rfl⟩ := hparts
        exact ⟨rfl, hslot⟩
      · intro hparts
        obtain ⟨rfl, h⟩ := hparts
        exact ⟨rfl, Option.some.inj (hslot.symm.trans h)⟩

/-- What a delimiter leads to depends on what the text pending before it does to the frame. -/
private theorem endArgument_see_iff {s : State} {span : Text} (h : s.Pending span) (c : Char)
    (frame : Frame) (key : Key) :
    (s.see c).endArgument ((s.see c).pos - 1) = .ok (frame, key) ↔
      s.frame.Takes s.start span frame ∧ frame.slot = some key := by
  have hoffset : (s.see c).pos - 1 = (s.see c).start + span.length := by
    have := h.pos
    simp only [see]
    omega
  rw [hoffset, endArgument_eq_ok_iff, flush_eq_ok_iff (h.see c)]
  rfl

/-- What is said of an error does not change a value. -/
theorem mapError_eq_ok_iff {α β γ : Type} (x : Except α γ) (f : α → β) (value : γ) :
    x.mapError f = .ok value ↔ x = .ok value := by
  cases x with
  | error e =>
    show Except.error (f e) = .ok value ↔ _
    simp
  | ok a =>
    show Except.ok a = .ok value ↔ _
    simp

/-- What is said of an error changes the error and nothing else. -/
theorem mapError_eq_error_iff {α β γ : Type} (x : Except α γ) (f : α → β) (e : β) :
    x.mapError f = .error e ↔ ∃ e', x = .error e' ∧ f e' = e := by
  cases x with
  | error e' =>
    show Except.error (f e') = .error e ↔ _
    simp
  | ok a =>
    show Except.ok a = .error e ↔ _
    simp

variable [Machine]

/-- A comma ends an argument, and the next one may begin behind it. -/
theorem step_comma_iff {s : State} {span : Text} (hmode : s.mode.inCode = true)
    (h : s.Pending span) (p : Progress) :
    s.step ',' = .ok p ↔ ∃ frame key, s.frame.Takes s.start span frame ∧
      frame.slot = some key ∧
      p = .reading ((s.see ',').fresh .code
        { frame with done := key :: frame.done, slot := none }) := by
  rw [step_code hmode (s.mode.completes_delimiter rfl), code, mapError_eq_ok_iff]
  simp only [separate, bind, Except.bind]
  constructor
  · intro hok
    split at hok
    · exact nomatch hok
    · rename_i result hend
      obtain ⟨frame, key⟩ := result
      obtain ⟨htakes, hslot⟩ := (endArgument_see_iff h ',' frame key).mp hend
      exact ⟨frame, key, htakes, hslot, (Except.ok.inj hok).symm⟩
  · intro hparts
    obtain ⟨frame, key, htakes, hslot, rfl⟩ := hparts
    rw [(endArgument_see_iff h ',' frame key).mpr ⟨htakes, hslot⟩]
    rfl

/-- The parenthesis of the layer closes it behind an argument. -/
theorem step_close_layer_iff {s : State} {span : Text} (hmode : s.mode.inCode = true)
    (h : s.Pending span) (houter : s.outer = []) (p : Progress) :
    s.step ')' = .ok p ↔ ∃ frame key, s.frame.Takes s.start span frame ∧
      frame.slot = some key ∧ p = .closed (frame.keysWith key) := by
  have houter' : (s.see ')').outer = [] := houter
  rw [step_code hmode (s.mode.completes_delimiter rfl), code, mapError_eq_ok_iff]
  simp only [close, bind, Except.bind]
  constructor
  · intro hok
    split at hok
    · exact nomatch hok
    · rename_i result hend
      obtain ⟨frame, key⟩ := result
      obtain ⟨htakes, hslot⟩ := (endArgument_see_iff h ')' frame key).mp hend
      simp only [houter'] at hok
      exact ⟨frame, key, htakes, hslot, (Except.ok.inj hok).symm⟩
  · intro hparts
    obtain ⟨frame, key, htakes, hslot, rfl⟩ := hparts
    rw [(endArgument_see_iff h ')' frame key).mpr ⟨htakes, hslot⟩]
    simp only [houter']
    rfl

/-- The key of a call that its parenthesis has closed. -/
def closedCall (s : State) (head : Head) (keys : List Key) : Key :=
  .call head.name keys head.offset (s.pos + 1) ((s.see ')').between head.offset (s.pos + 1))

/-- The parenthesis of a call closes it behind an argument, if the call has a slot to go into. -/
theorem step_close_call_iff {s : State} {span : Text} {head : Head} {parent : Frame}
    {outer : List (Head × Frame)} (hmode : s.mode.inCode = true) (h : s.Pending span)
    (houter : s.outer = (head, parent) :: outer) (p : Progress) :
    s.step ')' = .ok p ↔ ∃ frame key, s.frame.Takes s.start span frame ∧
      frame.slot = some key ∧ parent.slot = none ∧
      p = .reading { (s.see ')').fresh .code
        { parent with slot := some (s.closedCall head (frame.keysWith key)) } with outer } := by
  have houter' : (s.see ')').outer = (head, parent) :: outer := houter
  rw [step_code hmode (s.mode.completes_delimiter rfl), code, mapError_eq_ok_iff]
  simp only [close, bind, Except.bind]
  constructor
  · intro hok
    split at hok
    · exact nomatch hok
    · rename_i result hend
      obtain ⟨frame, key⟩ := result
      obtain ⟨htakes, hslot⟩ := (endArgument_see_iff h ')' frame key).mp hend
      simp only [houter', fill] at hok
      -- The call needs the slot that it stands in.
      cases hparent : parent.slot with
      | some previous => simp [hparent] at hok
      | none =>
        simp only [hparent] at hok
        exact ⟨frame, key, htakes, hslot, rfl, (Except.ok.inj hok).symm⟩
  · intro hparts
    obtain ⟨frame, key, htakes, hslot, hparent, rfl⟩ := hparts
    rw [(endArgument_see_iff h ')' frame key).mpr ⟨htakes, hslot⟩]
    simp only [houter', fill, hparent]
    rfl

/-- A parenthesis opens a call if one word is pending before it and there is room for the call. -/
theorem step_open_iff {s : State} {span : Text} (hmode : s.mode.inCode = true)
    (h : s.Pending span) (p : Progress) :
    s.step '(' = .ok p ↔ ∃ before name after, span = before ++ name ++ after ∧
      before.AllBlank ∧ after.AllBlank ∧ name ≠ [] ∧ name.hasBlank = false ∧
      s.outer.length < nestingLimit ∧
      p = .reading { s.see '(' with
        mode := .code, start := s.pos + 1, frame := .empty s.pos,
        outer := (⟨s.start + before.length, name⟩, s.frame) :: s.outer } := by
  have hoffset : (s.see '(').pos - 1 = s.pos := by simp [see]
  have hbetween : (s.see '(').between s.start s.pos = span := by
    rw [h.pos]
    exact between_of_pending (h.see '(')
  have hstart : (s.see '(').start = s.start := rfl
  rw [step_code hmode (s.mode.completes_delimiter rfl), code, mapError_eq_ok_iff]
  simp only [openCall, hoffset, hstart, hbetween]
  constructor
  · intro hok
    obtain ⟨before, after, hspan, hbefore, hafter, hmargin⟩ := span.exists_trim
    split at hok
    · exact nomatch hok
    · rename_i hne
      split at hok
      · exact nomatch hok
      · rename_i hblank
        split at hok
        · exact nomatch hok
        · -- All three checks have passed.
          rename_i hdepth
          refine ⟨before, span.trim, after, hspan, hbefore, hafter, by simpa using hne,
            by simpa using hblank, by simpa [see] using hdepth, ?_⟩
          rw [hmargin]
          exact (Except.ok.inj hok).symm
  · intro hparts
    obtain ⟨before, name, after, hspan, hbefore, hafter, hne, hname, hdepth, rfl⟩ := hparts
    -- The name between blanks is what trimming leaves of the span, so no check refuses it.
    have htrim : span.trim = name := hspan ▸ Text.trim_append hbefore hname hafter
    have hmargin : span.margin = before.length :=
      hspan ▸ Text.margin_append after hbefore hne hname
    have hroom : ¬ nestingLimit ≤ (s.see '(').outer.length := by simpa [see] using hdepth
    rw [htrim, hmargin, if_neg (by simpa using hne), if_neg (by simp [hname]), if_neg hroom]
    rfl

/-- A parenthesis opens nothing if only blanks are pending before it. -/
theorem step_open_of_allBlank {s : State} {span : Text} (hmode : s.mode.inCode = true)
    (h : s.Pending span) (hspan : span.AllBlank) :
    s.step '(' = .error ⟨⟨.missingName, s.pos⟩, s.pos + 1⟩ := by
  have hoffset : (s.see '(').pos - 1 = s.pos := by simp [see]
  have hbetween : (s.see '(').between (s.see '(').start s.pos = span := by
    rw [h.pos]
    exact between_of_pending (h.see '(')
  have htrim : span.trim = [] := by
    simpa using @Text.trim_append span [] [] hspan rfl (by simp)
  rw [step_code hmode (s.mode.completes_delimiter rfl), code]
  simp only [openCall, hoffset, hbetween, htrim]
  rfl

/-! ## What every step does -/

omit [Machine] in
/-- Ending what is pending before a pair reads no further. -/
private theorem skip_seen {s t : State} {mode : Mode} (h : s.skip mode = .ok (.reading t)) :
    t.seen = s.seen ∧ t.pos = s.pos := by
  simp only [skip] at h
  split at h
  · obtain rfl := Progress.reading.inj (Except.ok.inj h)
    exact ⟨rfl, rfl⟩
  · exact nomatch h

/-- Reading a character as code reads no further. -/
private theorem code_seen {s t : State} {c : Char} (h : s.code c = .ok (.reading t)) :
    t.seen = s.seen ∧ t.pos = s.pos := by
  unfold code at h
  rw [mapError_eq_ok_iff] at h
  split at h
  · -- A comma.
    simp only [separate, bind, Except.bind] at h
    split at h
    · exact nomatch h
    · obtain rfl := Progress.reading.inj (Except.ok.inj h)
      exact ⟨rfl, rfl⟩
  · -- An opening parenthesis.
    simp only [openCall] at h
    split at h
    · exact nomatch h
    · split at h
      · exact nomatch h
      · split at h
        · exact nomatch h
        · obtain rfl := Progress.reading.inj (Except.ok.inj h)
          exact ⟨rfl, rfl⟩
  · -- A closing parenthesis.
    simp only [close, bind, Except.bind] at h
    split at h
    · exact nomatch h
    · split at h
      · exact nomatch h
      · split at h
        · exact nomatch h
        · obtain rfl := Progress.reading.inj (Except.ok.inj h)
          exact ⟨rfl, rfl⟩
  all_goals
    obtain rfl := Progress.reading.inj (Except.ok.inj h)
    exact ⟨rfl, rfl⟩

/-- Every step remembers its character. -/
theorem step_seen {s t : State} {c : Char} (h : s.step c = .ok (.reading t)) :
    t.seen = c :: s.seen ∧ t.pos = s.pos + 1 := by
  have hsee : (s.see c).seen = c :: s.seen ∧ (s.see c).pos = s.pos + 1 := ⟨rfl, rfl⟩
  rw [← hsee.1, ← hsee.2]
  simp only [step] at h
  split at h
  case h_8 | h_9 | h_10 => exact skip_seen h
  case h_11 => exact code_seen h
  all_goals
    obtain rfl := Progress.reading.inj (Except.ok.inj h)
    exact ⟨rfl, rfl⟩

/-! ## Runs -/

/-- Reading a text leads from one state to another. -/
inductive Reads : State → Text → State → Prop where
  | nil (s : State) : Reads s [] s
  | cons {s t u : State} {c : Char} {rest : Text} : s.step c = .ok (.reading t) →
      Reads t rest u → Reads s (c :: rest) u

namespace Reads

/-- Texts are read one after the other. -/
theorem append {s t u : State} {a b : Text} (hs : s.Reads a t) (ht : t.Reads b u) :
    s.Reads (a ++ b) u := by
  induction hs with
  | nil => exact ht
  | cons hstep _ ih => exact .cons hstep (ih ht)

/-- A text of one character is read in one step. -/
theorem single {s t : State} {c : Char} (h : s.step c = .ok (.reading t)) : s.Reads [c] t :=
  .cons h (.nil t)

/-- Scanning goes on from the state that a text leads to. -/
theorem scan {s t : State} {a : Text} (h : s.Reads a t) (rest : Text) :
    s.scan (a ++ rest) = t.scan rest := by
  induction h with
  | nil => rfl
  | cons hstep _ ih =>
    rw [List.cons_append, scan_cons, hstep]
    exact ih

/-- Everything that is read is remembered. -/
theorem seen {s t : State} {a : Text} (h : s.Reads a t) :
    t.seen = a.reverse ++ s.seen ∧ t.pos = s.pos + a.length := by
  induction h with
  | nil => exact ⟨rfl, rfl⟩
  | cons hstep _ ih =>
    obtain ⟨hseen, hpos⟩ := step_seen hstep
    constructor
    · rw [ih.1, hseen, List.reverse_cons, List.append_assoc]
      rfl
    · rw [ih.2, hpos, List.length_cons]
      omega

end Reads

end State

end Keymap
