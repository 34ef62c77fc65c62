import Keymap.Proofs.Balanced
import Keymap.Proofs.Reread

/-!
# Space between tokens

A comment or a continued line may be put between two tokens of a layer, with a space before it, and
the layer says what it said before: it becomes part of the trivia behind the first of the two. The
name of a call is the exception. No trivia belong between a name and its parenthesis, only blanks,
so what is put there leaves the parenthesis without a name.

## Key results

- `Boundary.exists_spaced` — arguments with space at a boundary that is not behind a name
- `Boundary.nameless` — behind a name the scanner stops at the parenthesis
- `parse_insert` — a text with space at a boundary parses exactly if it is not behind a name
-/

namespace Keymap

/-! ## Boundaries -/

/-- What is put between two tokens: a space, and a comment or a continued line. -/
def Spacer (spacer : Text) : Prop :=
  ∃ piece, spacer = ' ' :: piece ∧ Skipped piece

/-- A place between two adjacent tokens of arguments, with the characters before and behind it. It
is right behind a parenthesis or a comma, behind a word or a call, or behind the name of a call, in
which case it is `named`. -/
inductive Boundary : Bool → ArgumentList → Text → Text → Prop where
  | separator {arg : Argument Token} {rest : ArgumentList} :
      Boundary false (arg :: rest) [] (ArgumentList.text (arg :: rest))
  | token {before after : Text} {token : Token} {rest : ArgumentList} :
      Boundary false (⟨before, token, after⟩ :: rest) (before ++ token.text)
        (after ++ closer rest :: ArgumentList.text rest)
  | name {before name blanks after : Text} {args rest : ArgumentList} :
      Boundary true (⟨before, .call name blanks args, after⟩ :: rest) (before ++ name)
        (blanks ++ '(' :: (ArgumentList.text args ++ (after ++ closer rest ::
          ArgumentList.text rest)))
  | inside {named : Bool} {before name blanks after read behind : Text}
      {args rest : ArgumentList} : Boundary named args read behind →
      Boundary named (⟨before, .call name blanks args, after⟩ :: rest)
        (before ++ (name ++ blanks ++ '(' :: read))
        (behind ++ (after ++ closer rest :: ArgumentList.text rest))
  | later {named : Bool} {before after read behind : Text} {token : Token}
      {rest : ArgumentList} : Boundary named rest read behind →
      Boundary named (⟨before, token, after⟩ :: rest)
        (before ++ token.text ++ after ++ closer rest :: read) behind

namespace Boundary

variable {named : Bool} {args : ArgumentList} {read behind : Text}

/-- The characters before and behind a boundary are all that there are. -/
theorem text_eq (h : Boundary named args read behind) : args.text = read ++ behind := by
  induction h with
  | separator => rfl
  | token | name => simp [ArgumentList.text]
  | inside _ ih | later _ ih => simp [ArgumentList.text, ih]

/-- A boundary lies within arguments. -/
theorem args_ne_nil (h : Boundary named args read behind) : args ≠ [] := by
  cases h <;> simp

/-- There is always a token behind a boundary. -/
theorem behind_ne_nil (h : Boundary named args read behind) : behind ≠ [] := by
  induction h with
  | separator => simp [ArgumentList.text]
  | token | name | inside => simp
  | later _ ih => exact ih

end Boundary

/-! ## Spacers -/

namespace Spacer

variable {spacer : Text}

theorem trivia (h : Spacer spacer) : Trivia spacer := by
  obtain ⟨piece, rfl, hpiece⟩ := h
  exact .blank rfl hpiece.trivia

/-- A word ends before a spacer wherever it can end at all. -/
theorem word_append {w after : Text} (h : Spacer spacer) (hw : Text.word (w ++ after) = w)
    (more : Text) : Text.word (w ++ (spacer ++ more)) = w := by
  obtain ⟨piece, rfl, -⟩ := h
  refine Text.word_append_of_word hw (Text.word_blank _ rfl) fun c _ d hd => ?_
  -- A space makes no pair with anything.
  obtain rfl : ' ' = d := Option.some.inj hd
  simp [isPair]

/-- A token may stand before a spacer wherever it may stand. -/
theorem fits {token : Token} {after : Text} (h : Spacer spacer) (hfits : token.Fits after) :
    token.Fits (spacer ++ after) := by
  cases token with
  | word chars =>
    rw [Token.Fits] at hfits ⊢
    exact ⟨hfits.1, h.word_append hfits.2 after⟩
  | call name blanks args =>
    rw [Token.Fits] at hfits ⊢
    exact hfits

end Spacer

/-! ## Offsets behind a place -/

/-- Where something that begins at an offset begins if `n` characters are put in at a place. -/
def startPast (place n offset : Nat) : Nat :=
  if offset < place then offset else offset + n

/-- Where something that ends at an offset ends if `n` characters are put in at a place. -/
def stopPast (place n offset : Nat) : Nat :=
  if offset ≤ place then offset else offset + n

section

variable {text part : Text} {pos place n : Nat}

/-- What stands before the place stays. -/
theorem moved_before (h : text.Holds pos part) (hle : pos + part.length ≤ place) :
    Moved text (startPast place n) (stopPast place n) pos pos part where
  holds := h
  start k hk := if_pos (by omega)
  stop k _ hk := if_pos (by omega)

/-- What stands behind the place is moved by as much as is put in. -/
theorem moved_behind (h : text.Holds (pos + n) part) (hle : place ≤ pos) :
    Moved text (startPast place n) (stopPast place n) pos (pos + n) part where
  holds := h
  start k _ := by
    rw [startPast, if_neg (by omega)]
    omega
  stop k hpos _ := by
    rw [stopPast, if_neg (by omega)]
    omega

end

/-! ## Space in arguments -/

/-- Arguments behind text that belongs to the first of them. -/
theorem ArgumentList.keys_lead (pos : Nat) (lead before after : Text) (token : Token)
    (rest : ArgumentList) :
    keys pos (⟨lead ++ before, token, after⟩ :: rest) =
      keys (pos + lead.length) (⟨before, token, after⟩ :: rest) := by
  rw [keys, keys]
  simp only [List.length_append, Nat.add_assoc]

/-- The second arguments are the first with a spacer put in between the given characters, and mean
the same with everything behind the spacer moved. -/
structure Spaced (spacer : Text) (args : ArgumentList) (read behind : Text)
    (args' : ArgumentList) : Prop where
  fit : args'.Fit
  length : args'.length = args.length
  text : args'.text = read ++ spacer ++ behind
  keys : ∀ (text : Text) (pos place : Nat), text.Holds pos args'.text →
    place = pos + read.length →
    Node.rereadAll text (startPast place spacer.length) (stopPast place spacer.length)
      (args.keys pos) = args'.keys pos

namespace Spaced

variable {spacer before after read behind : Text} {token : Token} {rest : ArgumentList}

/-- A spacer behind a separator belongs to the trivia before the argument. -/
theorem of_separator (hspacer : Spacer spacer)
    (hfit : ArgumentList.Fit (⟨before, token, after⟩ :: rest)) :
    Spaced spacer (⟨before, token, after⟩ :: rest) []
      (ArgumentList.text (⟨before, token, after⟩ :: rest))
      (⟨spacer ++ before, token, after⟩ :: rest) where
  fit := by
    rw [ArgumentList.Fit] at hfit ⊢
    exact ⟨hspacer.trivia.append hfit.1, hfit.2⟩
  length := rfl
  text := by simp [ArgumentList.text]
  keys text pos place hholds hplace := by
    -- All arguments are moved.
    have htext : ArgumentList.text (⟨spacer ++ before, token, after⟩ :: rest) =
        spacer ++ ArgumentList.text (⟨before, token, after⟩ :: rest) := by
      simp [ArgumentList.text]
    rw [htext, Text.holds_append_iff] at hholds
    rw [ArgumentList.keys_lead]
    exact ArgumentList.rereadAll_keys hfit (moved_behind hholds.2 (by rw [hplace]; rfl))

/-- A spacer behind a token belongs to the trivia behind it. -/
theorem of_token (hspacer : Spacer spacer)
    (hfit : ArgumentList.Fit (⟨before, token, after⟩ :: rest)) :
    Spaced spacer (⟨before, token, after⟩ :: rest) (before ++ token.text)
      (after ++ closer rest :: ArgumentList.text rest)
      (⟨before, token, spacer ++ after⟩ :: rest) := by
  rw [ArgumentList.Fit] at hfit
  obtain ⟨hbefore, htoken, hafter, hrest⟩ := hfit
  refine ⟨?_, rfl, by simp [ArgumentList.text], fun text pos place hholds hplace => ?_⟩
  · rw [ArgumentList.Fit]
    exact ⟨hbefore, hspacer.fits htoken, hspacer.trivia.append hafter, hrest⟩
  · -- The token stays, and the arguments behind it are moved.
    rw [ArgumentList.text, Text.holds_append_iff, Text.holds_append_iff, Text.holds_append_iff,
      Text.holds_cons_iff] at hholds
    obtain ⟨⟨⟨-, hheld⟩, -⟩, -, hlater⟩ := hholds
    simp only [List.length_append] at hplace hlater
    have hpos : pos + (before.length + token.text.length + (spacer.length + after.length)) + 1 =
        pos + before.length + token.text.length + after.length + 1 + spacer.length := by omega
    rw [hpos] at hlater
    have hstays : Moved text (startPast place spacer.length) (stopPast place spacer.length)
        (pos + before.length) (pos + before.length) token.text :=
      moved_before hheld (by omega)
    have hmoves : Moved text (startPast place spacer.length) (stopPast place spacer.length) _ _
        (ArgumentList.text rest) := moved_behind hlater (by omega)
    rw [ArgumentList.keys, ArgumentList.keys, Node.rereadAll, Token.reread_key htoken hstays,
      ArgumentList.rereadAll_keys hrest hmoves, ← hpos]
    simp only [List.length_append, Nat.add_assoc]

/-- A spacer in the arguments of a call makes the call longer. -/
theorem inside {name blanks : Text} {args args' : ArgumentList}
    (hfit : ArgumentList.Fit (⟨before, .call name blanks args, after⟩ :: rest))
    (htext : args.text = read ++ behind) (hne : behind ≠ [])
    (h : Spaced spacer args read behind args') :
    Spaced spacer (⟨before, .call name blanks args, after⟩ :: rest)
      (before ++ (name ++ blanks ++ '(' :: read))
      (behind ++ (after ++ closer rest :: ArgumentList.text rest))
      (⟨before, .call name blanks args', after⟩ :: rest) := by
  rw [ArgumentList.Fit, Token.Fits] at hfit
  obtain ⟨hbefore, ⟨hname_ne, hname, hblanks, hargs, -⟩, hafter, hrest⟩ := hfit
  refine ⟨?_, rfl, by simp [ArgumentList.text, h.text], fun text pos place hholds hplace => ?_⟩
  · rw [ArgumentList.Fit, Token.Fits]
    refine ⟨hbefore, ⟨hname_ne, hname, hblanks, ?_, h.fit⟩, hafter, hrest⟩
    rw [← List.length_pos_iff, h.length, List.length_pos_iff]
    exact hargs
  · -- The call begins where it did and ends later, and the arguments behind it are moved.
    have hlength (args : ArgumentList) : (Token.call name blanks args).text.length =
        name.length + blanks.length + 1 + args.text.length := by
      rw [Token.text_call, List.length_append, List.length_append, List.length_cons]
      omega
    have hgrown := congrArg List.length h.text
    have hall := congrArg List.length htext
    have hbehind := List.length_pos_iff.mpr hne
    rw [ArgumentList.text, Text.holds_append_iff, Text.holds_append_iff, Text.holds_append_iff,
      Text.holds_cons_iff] at hholds
    obtain ⟨⟨⟨-, hheld⟩, -⟩, -, hlater⟩ := hholds
    have hinner := hheld
    rw [Token.text_call, Text.holds_append_iff, Text.holds_append_iff, Text.holds_cons_iff]
      at hinner
    simp only [List.length_append, List.length_cons, ← Nat.add_assoc, hlength]
      at hplace hlater hgrown hall hinner
    have hkey : Node.reread text (startPast place spacer.length) (stopPast place spacer.length)
        ((Token.call name blanks args).key (pos + before.length)) =
        (Token.call name blanks args').key (pos + before.length) := by
      refine Token.reread_call (if_pos (by omega)) ?_ hheld
        (h.keys text _ place hinner.2.2 (by omega))
      rw [stopPast, if_neg (by rw [hlength]; omega), hlength, hlength]
      omega
    have hpos : pos + before.length + name.length + blanks.length + 1 + args'.text.length +
        after.length + 1 = pos + before.length + name.length + blanks.length + 1 +
          args.text.length + after.length + 1 + spacer.length := by omega
    rw [hpos] at hlater
    have hmoves : Moved text (startPast place spacer.length) (stopPast place spacer.length) _ _
        (ArgumentList.text rest) := moved_behind hlater (by omega)
    rw [ArgumentList.keys, ArgumentList.keys, Node.rereadAll, hkey, hlength, hlength]
    simp only [← Nat.add_assoc]
    rw [ArgumentList.rereadAll_keys hrest hmoves, hpos]

/-- Arguments before the spacer stay. -/
theorem later {rest' : ArgumentList} (hfit : ArgumentList.Fit (⟨before, token, after⟩ :: rest))
    (h : Spaced spacer rest read behind rest') :
    Spaced spacer (⟨before, token, after⟩ :: rest)
      (before ++ token.text ++ after ++ closer rest :: read) behind
      (⟨before, token, after⟩ :: rest') := by
  rw [ArgumentList.Fit] at hfit
  obtain ⟨hbefore, htoken, hafter, -⟩ := hfit
  refine ⟨?_, by simp [h.length], by simp [ArgumentList.text, h.text, closer_congr h.length],
    fun text pos place hholds hplace => ?_⟩
  · rw [ArgumentList.Fit]
    exact ⟨hbefore, htoken, hafter, h.fit⟩
  · -- What is behind the token is as if it stood alone.
    rw [ArgumentList.text, Text.holds_append_iff, Text.holds_append_iff, Text.holds_append_iff,
      Text.holds_cons_iff] at hholds
    obtain ⟨⟨⟨-, hheld⟩, -⟩, -, hlater⟩ := hholds
    simp only [List.length_append, List.length_cons, ← Nat.add_assoc] at hplace hlater
    have hstays : Moved text (startPast place spacer.length) (stopPast place spacer.length)
        (pos + before.length) (pos + before.length) token.text :=
      moved_before hheld (by omega)
    rw [ArgumentList.keys, ArgumentList.keys, Node.rereadAll, Token.reread_key htoken hstays,
      h.keys text _ place hlater (by omega)]

end Spaced

/-- With a spacer at a boundary that is not behind a name, arguments mean the same. -/
theorem Boundary.exists_spaced {args : ArgumentList} {read behind spacer : Text}
    (h : Boundary false args read behind) (hfit : args.Fit) (hspacer : Spacer spacer) :
    ∃ args', Spaced spacer args read behind args' := by
  generalize hnamed : false = named at h
  induction h with
  | name => cases hnamed
  | separator => exact ⟨_, .of_separator hspacer hfit⟩
  | token => exact ⟨_, .of_token hspacer hfit⟩
  | inside h ih =>
    have hinner := hfit
    rw [ArgumentList.Fit, Token.Fits] at hinner
    obtain ⟨args', hspaced⟩ := ih hinner.2.1.2.2.2.2 hnamed
    exact ⟨_, hspaced.inside hfit h.text_eq h.behind_ne_nil⟩
  | later _ ih =>
    have hrest := hfit
    rw [ArgumentList.Fit] at hrest
    obtain ⟨rest', hspaced⟩ := ih hrest.2.2.2 hnamed
    exact ⟨_, hspaced.later hfit⟩

/-! ## Space behind a name -/

section

variable [Machine]

namespace State

/-- What parts a word from what follows it ends what is pending. -/
theorem Rests.reads_skipped {s : State} {frame : Frame} {piece : Text} (h : s.Rests frame)
    (hpiece : Skipped piece) (hcode : s.mode = .code) :
    ∃ t, s.Reads piece t ∧ t.mode = .code ∧ t.start = t.pos ∧ t.outer = s.outer := by
  have hmeets (c : Char) : s.mode.completes c = false := by rw [hcode]; rfl
  rcases hpiece with hcomment | rfl
  · cases hcomment with
    | block hbody =>
      obtain ⟨t, hreads, hmode, hstart, -, houter⟩ := h.reads_blockComment (hmeets _) hbody
      exact ⟨t, hreads, hmode, hstart, houter⟩
    | line hbody =>
      obtain ⟨t, hreads, hmode, hstart, -, houter⟩ := h.reads_lineComment (hmeets _) hbody
      exact ⟨t, hreads, hmode, hstart, houter⟩
  · obtain ⟨t, hpair, hmode, hstart, -, houter⟩ :=
      h.reads_pair (c := '\\') (d := '\n') (by decide) (hmeets _)
    exact ⟨t, hpair, hmode, hstart, houter⟩

/-- Behind a name with a spacer the parenthesis has no name. -/
theorem Rests.scan_spaced_name {s : State} {frame : Frame} {name blanks spacer : Text}
    (h : s.Rests frame) (hslot : frame.slot = none) (hcode : s.mode = .code) (hne : name ≠ [])
    (hname : Text.word (name ++ blanks) = name) (hblanks : blanks.AllBlank)
    (hspacer : Spacer spacer) (rest : Text) :
    ∃ cursor, s.scan (name ++ spacer ++ blanks ++ '(' :: rest) =
      .error ⟨⟨.missingName, s.pos + (name ++ spacer ++ blanks).length⟩, cursor⟩ := by
  have hword : Text.word (name ++ (spacer ++ blanks)) = name := hspacer.word_append hname blanks
  obtain ⟨piece, rfl, hpiece⟩ := hspacer
  -- The name becomes a word of its own.
  obtain ⟨t, hreads, hrests, hmeets, -⟩ := h.reads_word hslot hne hword (meets_code hcode _)
  obtain ⟨u, hspace, hrests', hcode', -⟩ := hrests.step_blank (c := ' ') rfl (hmeets _ rfl)
  obtain ⟨v, hreads', hcode'', hstart, -⟩ := hrests'.reads_skipped hpiece hcode'
  -- Nothing but blanks is pending where the parenthesis comes.
  have hnone : v.Pending [] := ⟨List.nil_prefix, by simp [hstart]⟩
  obtain ⟨w, hreads'', hpending, hinCode, -, -, -⟩ :=
    reads_blanks hblanks (by rw [hcode'']; rfl) (meets_code hcode'' _) hnone
  have hall : s.Reads (name ++ ' ' :: piece ++ blanks) w := by
    simpa using hreads.append ((Reads.cons hspace hreads').append hreads'')
  refine ⟨w.pos + 1, ?_⟩
  rw [hall.scan, scan_cons, step_open_of_allBlank hinCode hpending hblanks, hall.seen.2]

/-- A fault that is found further on is found from where reading begins. -/
theorem Reads.scan_eq_error {s t : State} {a b : Text} {cause : Cause} {n cursor : Nat}
    (h : s.Reads a t) (hscan : t.scan b = .error ⟨⟨cause, t.pos + n⟩, cursor⟩) :
    s.scan (a ++ b) = .error ⟨⟨cause, s.pos + (a.length + n)⟩, cursor⟩ := by
  rw [h.scan, hscan, h.seen.2, Nat.add_assoc]

end State

/-- Wherever the first characters of the arguments are read, with the rest behind them, the scanner
stops at the parenthesis between the two, because it has no name. -/
def Nameless (args : ArgumentList) (chars rest : Text) : Prop :=
  ∀ (s : State) (frame : Frame), s.Rests frame → frame.slot = none → s.mode = .code →
    s.outer.length + Node.depthAll (args.keys s.pos) ≤ nestingLimit →
    ∃ cursor, s.scan (chars ++ '(' :: rest) =
      .error ⟨⟨.missingName, s.pos + chars.length⟩, cursor⟩

namespace Nameless

variable {before name blanks after spacer chars more : Text} {token : Token}
  {args rest : ArgumentList}

/-- Behind a name with a spacer the scanner stops. -/
theorem of_name (hspacer : Spacer spacer)
    (hfit : ArgumentList.Fit (⟨before, .call name blanks args, after⟩ :: rest)) (more : Text) :
    Nameless (⟨before, .call name blanks args, after⟩ :: rest)
      (before ++ (name ++ spacer ++ blanks)) more := by
  intro s frame hrests hslot hcode _
  rw [ArgumentList.Fit, Token.Fits] at hfit
  obtain ⟨hbefore, ⟨hne, hname, hblanks, -, -⟩, -, -⟩ := hfit
  obtain ⟨t, hreads, hrests', -, hmode⟩ := hrests.reads_trivia hbefore (State.meets_code hcode _)
  obtain ⟨cursor, hscan⟩ := hrests'.scan_spaced_name hslot (hmode.elim id (·.trans hcode)) hne
    hname hblanks hspacer more
  refine ⟨cursor, ?_⟩
  rw [List.append_assoc, List.length_append]
  exact hreads.scan_eq_error hscan

/-- The scanner that stops in the arguments of a call stops in the call. -/
theorem inside (hfit : ArgumentList.Fit (⟨before, .call name blanks args, after⟩ :: rest))
    (h : Nameless args chars more) :
    Nameless (⟨before, .call name blanks args, after⟩ :: rest)
      (before ++ (name ++ blanks ++ '(' :: chars)) more := by
  intro s frame hrests hslot hcode hdepth
  rw [ArgumentList.Fit, Token.Fits] at hfit
  obtain ⟨hbefore, ⟨hne, hname, hblanks, -, -⟩, -, -⟩ := hfit
  rw [ArgumentList.keys, Node.depthAll, Token.key, Node.depth] at hdepth
  -- The call is opened, and its arguments are read.
  obtain ⟨t, hreads, hrests', houter, hmode⟩ :=
    hrests.reads_trivia hbefore (State.meets_code hcode _)
  obtain ⟨u, hhead, hrests'', hcode', houter'⟩ :=
    hrests'.reads_head hslot (hmode.elim id (·.trans hcode)) hne hname hblanks
      (by rw [houter]; omega)
  have hall := hreads.append hhead
  have hpos := hall.seen.2
  simp only [List.length_append, List.length_singleton, ← Nat.add_assoc] at hpos
  obtain ⟨cursor, hscan⟩ := h _ _ hrests'' rfl hcode'
    (by rw [houter', houter, List.length_cons, hpos]; omega)
  refine ⟨cursor, ?_⟩
  simpa [Nat.add_assoc, Nat.add_comm 1] using hall.scan_eq_error hscan

/-- The scanner that stops in an argument has read those before. -/
theorem later (hfit : ArgumentList.Fit (⟨before, token, after⟩ :: rest)) (hne : rest ≠ [])
    (h : Nameless rest chars more) :
    Nameless (⟨before, token, after⟩ :: rest)
      (before ++ token.text ++ after ++ closer rest :: chars) more := by
  intro s frame hrests hslot hcode hdepth
  rw [ArgumentList.Fit] at hfit
  obtain ⟨hbefore, htoken, hafter, -⟩ := hfit
  rw [ArgumentList.keys, Node.depthAll] at hdepth
  have hcloser : closer rest = ',' := by
    obtain ⟨arg, args, rfl⟩ := List.exists_cons_of_ne_nil hne
    rfl
  -- The argument before is read, and a comma opens the next slot.
  obtain ⟨t, hreads, hrests₁, houter₁, hmode⟩ :=
    hrests.reads_trivia hbefore (State.meets_code hcode _)
  have hpos₁ : t.pos = s.pos + before.length := hreads.seen.2
  obtain ⟨u, htext, hrests₂, hmeets, houter₂⟩ :=
    State.reads_token token htoken hrests₁ hslot (hmode.elim id (·.trans hcode))
      (by rw [houter₁, hpos₁]; omega)
  obtain ⟨v, hreads', hrests₃, houter₃, -⟩ := hrests₂.reads_trivia hafter hmeets
  obtain ⟨w, hcomma, hrests₄, hcode', houter₄⟩ := hrests₃.step_comma rfl
  have hall := ((hreads.append htext).append hreads').append (.single hcomma)
  have hpos := hall.seen.2
  simp only [List.length_append, List.length_singleton, ← Nat.add_assoc] at hpos
  obtain ⟨cursor, hscan⟩ := h _ _ hrests₄ rfl hcode'
    (by rw [houter₄, houter₃, houter₂, houter₁, hpos]; omega)
  refine ⟨cursor, ?_⟩
  simpa [hcloser, Nat.add_assoc, Nat.add_comm 1] using hall.scan_eq_error hscan

end Nameless

/-- With a spacer at a boundary behind a name, the scanner stops at the parenthesis that follows. -/
theorem Boundary.nameless {args : ArgumentList} {read behind spacer : Text}
    (h : Boundary true args read behind) (hfit : args.Fit) (hspacer : Spacer spacer) :
    ∃ blanks after, behind = blanks ++ '(' :: after ∧ blanks.AllBlank ∧
      ∀ more, Nameless args (read ++ spacer ++ blanks) (after ++ more) := by
  generalize hnamed : true = named at h
  -- The induction is on where the boundary lies: at a name here, within a call, or further on.
  induction h with
  | separator | token => cases hnamed
  | @name before name blanks after args rest =>
    have hfits := hfit
    rw [ArgumentList.Fit, Token.Fits] at hfits
    refine ⟨blanks, _, rfl, hfits.2.1.2.2.1, fun more => ?_⟩
    simpa using Nameless.of_name hspacer hfit _
  | @inside named before name blanks after read behind args rest h ih =>
    have hinner := hfit
    rw [ArgumentList.Fit, Token.Fits] at hinner
    obtain ⟨blanks', after', rfl, hblanks, hnameless⟩ := ih hinner.2.1.2.2.2.2 hnamed
    refine ⟨blanks', after' ++ (after ++ closer rest :: ArgumentList.text rest), by simp, hblanks,
      fun more => ?_⟩
    simpa using (hnameless (after ++ closer rest :: ArgumentList.text rest ++ more)).inside hfit
  | later h ih =>
    have hrest := hfit
    rw [ArgumentList.Fit] at hrest
    have hne := h.args_ne_nil
    obtain ⟨blanks', after', rfl, hblanks, hnameless⟩ := ih hrest.2.2.2 hnamed
    refine ⟨blanks', after', rfl, hblanks, fun more => ?_⟩
    simpa using (hnameless more).later hfit hne

/-! ## Sources -/

/-- With a spacer at a boundary that is not behind a name, a passage means the same, with everything
behind the boundary moved. -/
theorem Passage.Fits.exists_spaced {opener read behind spacer : Text} {passage : Passage}
    (h : passage.Fits opener) (hboundary : Boundary false passage.args read behind)
    (hspacer : Spacer spacer) :
    ∃ passage' : Passage, passage'.Fits opener ∧ passage'.args.length = passage.args.length ∧
      passage'.text opener = passage.gap ++ marker opener ++ read ++ spacer ++ behind ∧
      ∀ (text : Text) (pos place : Nat), text.Holds pos (passage'.text opener) →
        place = pos + (passage.gap ++ marker opener ++ read).length →
        (passage.keys opener pos).map
            (Node.reread text (startPast place spacer.length) (stopPast place spacer.length)) =
          passage'.keys opener pos := by
  obtain ⟨args', hfit', hlength', htext', hkeys'⟩ := hboundary.exists_spaced h.args hspacer
  refine ⟨⟨passage.gap, args'⟩, ⟨h.gap, ?_, hfit', ?_⟩, hlength',
    by simp [Passage.text, htext'], fun text pos place hholds hplace => ?_⟩
  · rw [← List.length_pos_iff, hlength', List.length_pos_iff]
    exact h.args_ne_nil
  · -- Reading again keeps the depth.
    rw [← hkeys' args'.text 0 _ List.prefix_rfl rfl, Node.depthAll_rereadAll]
    exact h.depth
  · rw [Passage.text, Text.holds_append_iff, List.length_append, ← Nat.add_assoc] at hholds
    rw [← Node.rereadAll_eq_map]
    refine hkeys' text _ place hholds.2 ?_
    rw [hplace]
    simp only [List.length_append, Nat.add_assoc]

/-- If a passage grows at a place within it, the passages before it stay, and those behind it are
moved. -/
theorem map_reread_grown {opener text : Text} {first later : List Passage}
    {passage passage' : Passage} {n place : Nat} (hfirst : ∀ p ∈ first, p.Fits opener)
    (hlater : ∀ p ∈ later, p.Fits opener)
    (hlength : (passage'.text opener).length = (passage.text opener).length + n)
    (hle : (passagesText opener first).length ≤ place)
    (hge : place ≤ (passagesText opener first).length + (passage.text opener).length)
    (hholds : text.Holds 0 (passagesText opener (first ++ passage' :: later)))
    (hkeys : (passage.keys opener (passagesText opener first).length).map
        (Node.reread text (startPast place n) (stopPast place n)) =
      passage'.keys opener (passagesText opener first).length) :
    (invocations opener 0 (first ++ passage :: later)).map
        (·.keys.map (Node.reread text (startPast place n) (stopPast place n))) =
      (invocations opener 0 (first ++ passage' :: later)).map (·.keys) := by
  rw [passagesText_append, passagesText_cons, Text.holds_append_iff, Text.holds_append_iff,
    Nat.zero_add, hlength, ← Nat.add_assoc] at hholds
  obtain ⟨hbefore, -, hbehind⟩ := hholds
  rw [← Nat.zero_add (passagesText opener first).length] at hle
  -- The passages before the place stay where they are, and those behind it move by `n`.
  have hstays := map_reread_invocations hfirst (moved_before (n := n) hbefore hle)
  have hmoves := map_reread_invocations hlater (moved_behind hbehind hge)
  rw [invocations_append, invocations_append, List.map_append, List.map_append, hstays,
    invocations, invocations, List.map_cons, List.map_cons, Nat.zero_add, hmoves, hlength,
    ← Nat.add_assoc]
  exact congrArg (_ ++ · :: _) hkeys

namespace Source

variable {opener read behind spacer : Text} {source : Source} {size : Nat}
  {first later : List Passage} {passage : Passage}

omit [Machine] in
/-- The text of a source around a boundary of one of its passages. -/
theorem text_boundary {named : Bool} (h : source.passages = first ++ passage :: later)
    (hboundary : Boundary named passage.args read behind) :
    source.text opener =
      passagesText opener first ++ passage.gap ++ marker opener ++ read ++
        (behind ++ (passagesText opener later ++ source.tail)) := by
  simp [text, h, Passage.text, hboundary.text_eq]

/-- With a spacer at a boundary that is not behind a name, a source means the same, with everything
behind the boundary moved. -/
theorem Fits.exists_spaced (h : source.Fits opener size)
    (hpassages : source.passages = first ++ passage :: later)
    (hboundary : Boundary false passage.args read behind) (hspacer : Spacer spacer) :
    ∃ source' : Source, source'.Fits opener size ∧
      source'.text opener = passagesText opener first ++ passage.gap ++ marker opener ++ read ++
        spacer ++ (behind ++ (passagesText opener later ++ source.tail)) ∧
      ∀ place,
        place = (passagesText opener first ++ passage.gap ++ marker opener ++ read).length →
        (source.outline opener).reread (source'.text opener) (startPast place spacer.length)
          (stopPast place spacer.length) = source'.outline opener := by
  have hall := h.passages
  have hsizes := h.size
  rw [hpassages, List.forall_mem_append, List.forall_mem_cons] at hall hsizes
  obtain ⟨hfirst, hpassage, hlater⟩ := hall
  obtain ⟨passage', hfits', hlength', htext', hkeys'⟩ :=
    hpassage.exists_spaced hboundary hspacer
  let source' : Source := ⟨first ++ passage' :: later, source.tail⟩
  refine ⟨source', ⟨by simp [source'], ?_, ?_, h.tail⟩, by simp [source', text, htext'],
    fun place hplace => ?_⟩
  · rw [List.forall_mem_append, List.forall_mem_cons]
    exact ⟨hfirst, hfits', hlater⟩
  · rw [List.forall_mem_append, List.forall_mem_cons, hlength']
    exact hsizes
  · have hholds : (source'.text opener).Holds 0 (passagesText opener source'.passages) :=
      List.prefix_append ..
    have hat := hholds
    rw [passagesText_append, passagesText_cons, Text.holds_append_iff, Text.holds_append_iff,
      Nat.zero_add] at hat
    -- The place lies within the passage, which grows by the spacer.
    have hends : (passage.text opener).length =
        (passage.gap ++ marker opener ++ read).length + behind.length := by
      rw [Passage.text, hboundary.text_eq, ← List.append_assoc, List.length_append]
    have hlength : (passage'.text opener).length =
        (passage.text opener).length + spacer.length := by
      rw [htext', hends]
      simp only [List.length_append]
      omega
    have hpos : 0 < behind.length := List.length_pos_iff.mpr hboundary.behind_ne_nil
    simp only [List.length_append] at hplace hends
    -- The passages around it keep their keys, moved behind the place and unmoved before it.
    have hlayers := map_reread_grown hfirst hlater hlength (by omega) (by omega) hholds
      (hkeys' _ _ place hat.2.1 (by simp only [List.length_append]; omega))
    have hstop : stopPast place spacer.length (passagesText opener source.passages).length =
        (passagesText opener source'.passages).length := by
      simp only [hpassages, source', passagesText_append, passagesText_cons, List.length_append,
        hlength]
      rw [stopPast, if_neg (by omega)]
      omega
    rw [outline, outline, Outline.reread, List.map_map, hstop, hpassages]
    exact congrArg (Outline.mk · _) hlayers

/-- With a spacer behind a name, reading stops at the parenthesis behind it. -/
theorem Fits.parse_eq_error (h : source.Fits opener size)
    (hpassages : source.passages = first ++ passage :: later)
    (hboundary : Boundary true passage.args read behind) (hspacer : Spacer spacer)
    (keyCount : Option Int) :
    ∃ blanks after, behind = blanks ++ '(' :: after ∧ blanks.AllBlank ∧
      ∀ text, text = passagesText opener first ++ passage.gap ++ marker opener ++ read ++ spacer ++
          (behind ++ (passagesText opener later ++ source.tail)) →
        parse text keyCount opener = .error (Cause.missingName.locate text
          (passagesText opener first ++ passage.gap ++ marker opener ++ read ++ spacer ++
            blanks).length) := by
  have hall := h.passages
  rw [hpassages, List.forall_mem_append, List.forall_mem_cons] at hall
  obtain ⟨hfirst, hpassage, -⟩ := hall
  obtain ⟨blanks, after, rfl, hblanks, hnameless⟩ := hboundary.nameless hpassage.args hspacer
  refine ⟨blanks, after, rfl, hblanks, fun text htext => ?_⟩
  -- The passages before are read, and the next opener is that of the passage.
  let pos := 0 + (passagesText opener first).length
  let body := read ++ spacer ++ blanks ++
    '(' :: (after ++ (passagesText opener later ++ source.tail))
  have hseek : seek (marker opener) pos (passage.gap ++ marker opener ++ body) =
      some (pos + passage.gap.length, body) :=
    (seek_eq_some_iff ..).mpr ⟨passage.gap, rfl, rfl, hpassage.gap⟩
  have hdepth := hpassage.depth_keys pos
  rw [Passage.keys_eq] at hdepth
  let s := State.initial (pos + passage.gap.length + opener.length)
  obtain ⟨cursor, hscan⟩ := hnameless (passagesText opener later ++ source.tail) s _
    (.of_fresh rfl rfl rfl) rfl rfl (by simpa [s, State.initial] using hdepth)
  have hsweep := sweep_passages_append 0 hfirst (passage.gap ++ marker opener ++ body)
  rw [sweep_error hseek hscan] at hsweep
  have hbody : text = passagesText opener first ++ (passage.gap ++ marker opener ++ body) := by
    simp [htext, body]
  have hoffset : s.pos + (read ++ spacer ++ blanks).length =
      (passagesText opener first ++ passage.gap ++ marker opener ++ read ++ spacer ++
        blanks).length := by
    simp only [s, State.initial, pos, marker, List.length_append, List.length_singleton]
    omega
  rw [← hbody, hoffset] at hsweep
  simp only [parse, readText, hsweep, Sweep.outline,
    Except.mapError]

end Source

/-! ## Texts -/

/-- A place between two adjacent tokens of a layer of a text. It is `named` if it is behind the name
of a call. -/
def BoundaryAt (opener text : Text) (named : Bool) (place : Nat) : Prop :=
  ∃ (source : Source) (size : Nat) (first later : List Passage) (passage : Passage)
    (read behind : Text), source.Fits opener size ∧ text = source.text opener ∧
      source.passages = first ++ passage :: later ∧ Boundary named passage.args read behind ∧
      place = (passagesText opener first ++ passage.gap ++ marker opener ++ read).length

/-- A text that parses has the outline of its source. -/
theorem Source.Fits.outline_of_parse {opener : Text} {source : Source} {size : Nat}
    {keyCount : Option Int} {outline : Outline} (h : source.Fits opener size)
    (hparse : parse (source.text opener) keyCount opener = .ok outline) :
    outline = source.outline opener ∧ ∀ expected ∈ keyCount, expected = size := by
  obtain ⟨other, size', hfits', hcount, htext, rfl⟩ := (parse_eq_ok_iff ..).mp hparse
  -- Without a number of keys the same text parses to both.
  have hother : parse (source.text opener) none opener = .ok (other.outline opener) :=
    (parse_eq_ok_iff ..).mpr ⟨other, size', hfits', by simp, htext, rfl⟩
  have hself : parse (source.text opener) none opener = .ok (source.outline opener) :=
    (parse_eq_ok_iff ..).mpr ⟨source, size, h, by simp, rfl, rfl⟩
  have heq : other.outline opener = source.outline opener :=
    Except.ok.inj (hother.symm.trans hself)
  have hsize : size' = size := by rw [← hfits'.keyCount_outline, heq, h.keyCount_outline]
  exact ⟨heq, hsize ▸ hcount⟩

/-- A text that parses does so with a comment or a continued line between two tokens of a layer, to
the same with everything behind it moved, unless it is put behind the name of a call. There the
parenthesis that follows has no name. -/
theorem parse_insert {text opener spacer : Text} {keyCount : Option Int} {outline : Outline}
    {named : Bool} {place : Nat} (h : parse text keyCount opener = .ok outline)
    (hboundary : BoundaryAt opener text named place) (hspacer : Spacer spacer) :
    (named = false →
      parse (text.splice place place spacer) keyCount opener =
        .ok (outline.reread (text.splice place place spacer) (startPast place spacer.length)
          (stopPast place spacer.length))) ∧
    (named = true →
      ∃ paren, place ≤ paren ∧ text[paren]? = some '(' ∧ (text.slice place paren).AllBlank ∧
        parse (text.splice place place spacer) keyCount opener =
          .error (Cause.missingName.locate (text.splice place place spacer)
            ((paren + spacer.length : Nat) : Int))) := by
  obtain ⟨source, size, first, later, passage, read, behind, hfits, rfl, hpassages, hboundary,
    hplace⟩ := hboundary
  obtain ⟨rfl, hcount⟩ := hfits.outline_of_parse h
  have htext : source.text opener = _ := source.text_boundary hpassages hboundary
  have hsplice : (source.text opener).splice place place spacer =
      passagesText opener first ++ passage.gap ++ marker opener ++ read ++ spacer ++
        (behind ++ (passagesText opener later ++ source.tail)) := by
    rw [htext, hplace, Text.splice, List.take_left, List.drop_left]
  -- Elsewhere the result has the same passages, with the spacer in one; at a name it has no
  -- outline.
  rw [hsplice]
  constructor
  · rintro rfl
    obtain ⟨source', hfits', htext', houtline⟩ := hfits.exists_spaced hpassages hboundary hspacer
    rw [← htext', houtline place hplace]
    exact (parse_eq_ok_iff ..).mpr ⟨source', size, hfits', hcount, rfl, rfl⟩
  · rintro rfl
    obtain ⟨blanks, after, rfl, hblanks, hparse⟩ :=
      hfits.parse_eq_error hpassages hboundary hspacer keyCount
    -- The error lies at the parenthesis that the name was for, which has moved by the spacer.
    have hshape : source.text opener =
        passagesText opener first ++ passage.gap ++ marker opener ++ read ++ blanks ++
          ('(' :: after ++ (passagesText opener later ++ source.tail)) := by
      simp [htext]
    refine ⟨place + blanks.length, Nat.le_add_right .., ?_, ?_, ?_⟩
    · rw [hshape, hplace, ← List.length_append, List.getElem?_append_right (Nat.le_refl _),
        Nat.sub_self]
      rfl
    · rw [hshape, hplace, Text.slice_middle]
      exact hblanks
    · rw [hparse _ rfl, hplace]
      congr 3
      simp only [List.length_append]
      omega

end

open Usual

/-- A call with one word, in a layer of its own. -/
private def nested : Source :=
  ⟨[⟨[], [⟨[], .call ['f'] [] [⟨[], .word ['A'], []⟩], []⟩]⟩], []⟩

private theorem nested_fits : nested.Fits ['K'] 1 where
  passages_ne_nil := by simp [nested]
  passages := by
    rintro passage (⟨⟩ | ⟨_, ⟨⟩⟩)
    refine ⟨by decide, by simp, ?_, by decide⟩
    simp only [ArgumentList.Fit, Token.Fits]
    exact ⟨.nil, ⟨by simp, rfl, by simp, by simp, .nil, ⟨by simp, rfl⟩, .nil, trivial⟩, .nil,
      trivial⟩
  size := by
    rintro passage (⟨⟩ | ⟨_, ⟨⟩⟩)
    rfl
  tail := by decide

/-- A line comment behind a word, with the comment in the content of the call. -/
theorem parse_insert_word :
    BoundaryAt ['K'] "K(f(A))".toList false 5 ∧
      parse "K(f(A // )\n))".toList none ['K'] =
        .ok ⟨[[.call ['f'] [.word ['A'] 4 5] 2 12 "f(A // )\n)".toList]], 13⟩ := by
  have hparse : parse "K(f(A))".toList none ['K'] =
      .ok ⟨[[.call ['f'] [.word ['A'] 4 5] 2 6 "f(A)".toList]], 7⟩ := by decide +kernel
  have hplace : BoundaryAt ['K'] "K(f(A))".toList false 5 :=
    ⟨nested, 1, [], [], _, _, _, nested_fits, rfl, rfl, .inside .token, rfl⟩
  have hspacer : Spacer " // )\n".toList :=
    ⟨_, rfl, .inl (@Comment.line " )".toList (by decide))⟩
  exact ⟨hplace, (parse_insert hparse hplace hspacer).1 rfl⟩

/-- A comment between a name and its parenthesis. -/
theorem exists_boundary_not_parse :
    (parse "K(f(A))".toList none ['K']).isOk = true ∧
      BoundaryAt ['K'] "K(f(A))".toList true 3 ∧ Spacer " /**/".toList ∧
      (parse (Text.splice "K(f(A))".toList 3 3 " /**/".toList) none ['K']).isOk = false :=
  ⟨by decide +kernel,
    ⟨nested, 1, [], [], _, _, _, nested_fits, rfl, rfl, .name, rfl⟩,
    ⟨_, rfl, .inl (@Comment.block [] (by decide))⟩, by decide +kernel⟩

end Keymap
