import Keymap.Proofs.LineEndings
import Keymap.Proofs.Reread
import Mathlib.Data.List.Forall2

/-!
# Comments as blanks

Comments and continued lines of a layer mean nothing: with spaces in their place, character by
character, the layer says the same at the same offsets. Which characters these are is said of the
text of a layer alone. In a text that parses they are those of the trivia, because no comment
begins within a word.

## Key results

- `Trivia.allBlank_blanked` — with spaces in the place of comments, trivia are blank
- `ArgumentList.blanked_append` — what is blanked in arguments is their trivia
- `ArgumentList.rereadAll_blanked` — the keys are the same, read again in the blanked text
- `parse_blankText` — a text parses to the same with the comments of its layers blanked
-/

namespace Keymap

/-! ## Blanking texts -/

/-- The text with a space in the place of every character of a comment, and of every backslash and
newline that continue a line, if it begins in a region. -/
def blanked : Region → Text → Text
  | _, [] => []
  | .code, '/' :: '*' :: rest => ' ' :: ' ' :: blanked .block rest
  | .code, '/' :: '/' :: rest => ' ' :: ' ' :: blanked .line rest
  | .code, '\\' :: '\n' :: rest => ' ' :: ' ' :: blanked .code rest
  | .code, c :: rest => c :: blanked .code rest
  | .block, '*' :: '/' :: rest => ' ' :: ' ' :: blanked .code rest
  | .block, _ :: rest => ' ' :: blanked .block rest
  | .line, '\n' :: rest => ' ' :: blanked .code rest
  | .line, _ :: rest => ' ' :: blanked .line rest

/-- A character that is overwritten gives way to a space. -/
def Overwrites (old new : Char) : Prop :=
  new = old ∨ new = ' '

/-- Blanking overwrites characters and leaves the others where they are. -/
theorem overwrites_blanked (region : Region) (text : Text) :
    List.Forall₂ Overwrites text (blanked region text) := by
  fun_induction blanked region text with
  | case1 => exact .nil
  | case2 rest ih | case3 rest ih | case4 rest ih | case6 rest ih =>
    exact .cons (.inr rfl) (.cons (.inr rfl) ih)
  | case5 c rest _ _ _ ih => exact .cons (.inl rfl) ih
  | case7 | case8 | case9 => exact .cons (.inr rfl) ‹_›

@[simp] theorem length_blanked (region : Region) (text : Text) :
    (blanked region text).length = text.length :=
  (overwrites_blanked region text).length_eq.symm

/-- A character that begins no pair stays. -/
theorem blanked_cons {c : Char} {rest : Text} (h : Text.startsPair (c :: rest) = false) :
    blanked .code (c :: rest) = c :: blanked .code rest := by
  rw [blanked.eq_def]
  split <;> simp_all [Text.startsPair, isPair]

/-- A delimiter stays. -/
theorem blanked_delimiter {c : Char} (hc : isDelimiter c = true) (rest : Text) :
    blanked .code (c :: rest) = c :: blanked .code rest := by
  apply blanked_cons
  cases rest with
  | nil => rfl
  | cons d rest =>
    rw [Text.startsPair, ← Bool.not_eq_true]
    intro hpair
    rw [isDelimiter_of_isPair hpair] at hc
    cases hc

/-- A blank stays. -/
theorem blanked_blank {c : Char} (hc : isBlank c = true) (rest : Text) :
    blanked .code (c :: rest) = c :: blanked .code rest := by
  apply blanked_cons
  cases rest with
  | nil => rfl
  | cons d rest =>
    simp only [Text.startsPair, isPair, Bool.or_eq_false_iff, Bool.and_eq_false_iff,
      beq_eq_false_iff_ne]
    constructor <;> left <;> rintro rfl <;> cases hc

/-- A block comment is overwritten through its end. -/
theorem blanked_block {body : Text} (rest : Text) (h : ¬ ['*', '/'] <:+: body ++ ['*']) :
    blanked .block (body ++ '*' :: '/' :: rest) =
      List.replicate (body.length + 2) ' ' ++ blanked .code rest := by
  induction body with
  | nil => rw [List.nil_append, blanked]; rfl
  | cons c body ih =>
    have hbody : ¬ ['*', '/'] <:+: body ++ ['*'] := fun hwithin =>
      h (hwithin.trans (List.suffix_cons c _).isInfix)
    have hskip : blanked .block (c :: (body ++ '*' :: '/' :: rest)) =
        ' ' :: blanked .block (body ++ '*' :: '/' :: rest) := by
      rw [blanked]
      -- No end of a comment begins in the body.
      rintro more rfl hmore
      cases body with
      | nil => exact nomatch hmore
      | cons d body =>
        obtain rfl := (List.cons.inj hmore).1
        exact h ⟨[], body ++ ['*'], rfl⟩
    rw [List.cons_append, hskip, ih hbody]
    rfl

/-- A line comment is overwritten through the end of the line. -/
theorem blanked_line {body : Text} (rest : Text) (h : '\n' ∉ body) :
    blanked .line (body ++ '\n' :: rest) =
      List.replicate (body.length + 1) ' ' ++ blanked .code rest := by
  induction body with
  | nil => rw [List.nil_append, blanked]; rfl
  | cons c body ih =>
    simp only [List.mem_cons, not_or] at h
    have hskip : blanked .line (c :: (body ++ '\n' :: rest)) =
        ' ' :: blanked .line (body ++ '\n' :: rest) := by
      rw [blanked]
      exact Ne.symm h.1
    rw [List.cons_append, hskip, ih h.2]
    rfl

/-! ## Trivia and words -/

/-- Spaces are blank. -/
theorem Text.allBlank_replicate (n : Nat) : AllBlank (List.replicate n ' ') := by
  intro c hc
  rw [List.eq_of_mem_replicate hc]
  rfl

/-- What is blanked in trivia does not depend on what follows them. -/
theorem Trivia.blanked_append {a : Text} (h : Trivia a) (rest : Text) :
    blanked .code (a ++ rest) = blanked .code a ++ blanked .code rest := by
  induction h with
  | nil => rfl
  | blank hc _ ih => simp only [List.cons_append, blanked_blank hc, ih]
  | block hbody _ ih =>
    simp only [List.cons_append, List.append_assoc, blanked, blanked_block _ hbody, ih]
  | line hbody _ ih =>
    simp only [List.cons_append, List.append_assoc, blanked, blanked_line _ hbody, ih]
  | continued _ ih => simp only [List.cons_append, blanked, ih]

/-- With spaces in the place of comments, trivia are blank. -/
theorem Trivia.allBlank_blanked {a : Text} (h : Trivia a) : (blanked .code a).AllBlank := by
  induction h with
  | nil => exact Text.allBlank_nil
  | blank hc _ ih =>
    rw [blanked_blank hc]
    exact (Text.allBlank_cons ..).mpr ⟨hc, ih⟩
  | block hbody _ ih =>
    rw [blanked, blanked_block _ hbody]
    simp [Text.allBlank_replicate, ih, show isBlank ' ' = true from rfl]
  | line hbody _ ih =>
    rw [blanked, blanked_line _ hbody]
    simp [Text.allBlank_replicate, ih, show isBlank ' ' = true from rfl]
  | continued _ ih => simp [blanked, ih, show isBlank ' ' = true from rfl]

/-- Nothing is overwritten in blanks. -/
theorem blanked_of_allBlank {a : Text} (h : a.AllBlank) : blanked .code a = a := by
  induction a with
  | nil => rfl
  | cons c a ih =>
    obtain ⟨hc, ha⟩ := (Text.allBlank_cons ..).mp h
    rw [blanked_blank hc, ih ha]

/-- Nothing is overwritten in a word. -/
theorem blanked_word {w after : Text} (h : Text.word (w ++ after) = w) :
    blanked .code (w ++ after) = w ++ blanked .code after := by
  induction w with
  | nil => rfl
  | cons c w ih =>
    obtain ⟨-, -, hpair, hw⟩ := (Text.word_cons_append_eq_iff ..).mp h
    rw [List.cons_append] at hpair ⊢
    rw [blanked_cons hpair, ih hw, List.cons_append]

/-- A word before trivia is the longest one before blanked trivia. -/
theorem Text.word_append_blanked {w after : Text} (h : word (w ++ after) = w)
    (hafter : Trivia after) : word (w ++ blanked .code after) = w := by
  have hnone : word (blanked .code after) = [] := by
    simpa using (Trivia.of_allBlank hafter.allBlank_blanked).word_append word_nil
  refine word_append_of_word h hnone fun c hc d hd => ?_
  -- What stands right behind the word is what stood there, or a space.
  have hover := overwrites_blanked .code after
  generalize blanked .code after = behind at hover hd
  cases hover with
  | nil => exact nomatch hd
  | cons hfirst _ =>
    obtain rfl := Option.some.inj hd
    rcases hfirst with rfl | rfl
    · exact isPair_of_word h hc rfl
    · simp [isPair]

/-! ## Arguments -/

mutual

/-- The token with blanked trivia. -/
def Token.blanked : Token → Token
  | .word chars => .word chars
  | .call name blanks args => .call name blanks (ArgumentList.blanked args)

/-- The arguments with blanked trivia. -/
def ArgumentList.blanked : ArgumentList → ArgumentList
  | [] => []
  | ⟨before, token, after⟩ :: rest =>
    ⟨Keymap.blanked .code before, token.blanked, Keymap.blanked .code after⟩ ::
      ArgumentList.blanked rest

end

/-- There are as many arguments with blanked trivia. -/
@[simp] theorem ArgumentList.length_blanked (args : ArgumentList) :
    args.blanked.length = args.length := by
  induction args with
  | nil => rfl
  | cons arg rest ih =>
    obtain ⟨before, token, after⟩ := arg
    rw [ArgumentList.blanked, List.length_cons, ih, List.length_cons]

mutual

/-- What is blanked in a token and what follows it are its trivia and those behind it. -/
theorem Token.blanked_append {token : Token} {after : Text} (h : token.Fits after) :
    Keymap.blanked .code (token.text ++ after) =
      token.blanked.text ++ Keymap.blanked .code after := by
  match token with
  | .word chars =>
    rw [Token.Fits] at h
    rw [Token.blanked, Token.text_word, blanked_word h.2]
  | .call name blanks args =>
    rw [Token.Fits] at h
    obtain ⟨-, hname, hblanks, -, hargs⟩ := h
    have hopen : Text.word (name ++ (blanks ++ '(' :: (ArgumentList.text args ++ after))) = name :=
      (Text.word_append_trivia name _ (.of_allBlank hblanks) rfl).mpr hname
    rw [Token.blanked, Token.text_call, Token.text_call]
    simp only [List.append_assoc, List.cons_append]
    rw [blanked_word hopen, (Trivia.of_allBlank hblanks).blanked_append, blanked_delimiter rfl,
      ArgumentList.blanked_append hargs, blanked_of_allBlank hblanks]

/-- What is blanked in arguments and what follows them are their trivia and those behind them. -/
theorem ArgumentList.blanked_append {args : ArgumentList} {after : Text} (h : args.Fit) :
    Keymap.blanked .code (args.text ++ after) =
      args.blanked.text ++ Keymap.blanked .code after := by
  match args with
  | [] => rfl
  | ⟨before, token, behind⟩ :: rest =>
    rw [ArgumentList.Fit] at h
    obtain ⟨hbefore, htoken, hbehind, hrest⟩ := h
    have htoken' := (Token.fits_append (ArgumentList.text rest ++ after) hbehind
      (isDelimiter_closer rest)).mpr htoken
    rw [ArgumentList.text, ArgumentList.blanked, ArgumentList.text,
      closer_congr (ArgumentList.length_blanked rest)]
    simp only [List.append_assoc, List.cons_append]
    rw [hbefore.blanked_append, Token.blanked_append htoken', hbehind.blanked_append,
      blanked_delimiter (isDelimiter_closer rest), ArgumentList.blanked_append hrest]

end

/-- What is blanked in arguments are their trivia. -/
theorem ArgumentList.blanked_text {args : ArgumentList} (h : args.Fit) :
    Keymap.blanked .code args.text = args.blanked.text := by
  have happend := @ArgumentList.blanked_append _ [] h
  rwa [List.append_nil, Keymap.blanked, List.append_nil] at happend

mutual

/-- A token fits with blanked trivia. -/
theorem Token.Fits.blanked {token : Token} {after : Text} (h : token.Fits after)
    (hafter : Trivia after) : token.blanked.Fits (Keymap.blanked .code after) := by
  match token with
  | .word chars =>
    rw [Token.Fits] at h
    rw [Token.blanked, Token.Fits]
    exact ⟨h.1, Text.word_append_blanked h.2 hafter⟩
  | .call name blanks args =>
    rw [Token.Fits] at h
    obtain ⟨hne, hname, hblanks, hargs, hfit⟩ := h
    rw [Token.blanked, Token.Fits]
    refine ⟨hne, hname, hblanks, ?_, ArgumentList.Fit.blanked hfit⟩
    rw [← List.length_pos_iff, ArgumentList.length_blanked, List.length_pos_iff]
    exact hargs

/-- Arguments fit with blanked trivia. -/
theorem ArgumentList.Fit.blanked {args : ArgumentList} (h : args.Fit) : args.blanked.Fit := by
  match args with
  | [] => exact h
  | ⟨before, token, after⟩ :: rest =>
    rw [ArgumentList.Fit] at h
    obtain ⟨hbefore, htoken, hafter, hrest⟩ := h
    rw [ArgumentList.blanked, ArgumentList.Fit]
    exact ⟨.of_allBlank hbefore.allBlank_blanked, htoken.blanked hafter,
      .of_allBlank hafter.allBlank_blanked, hrest.blanked⟩

end

mutual

/-- A token is as long with blanked trivia. -/
theorem Token.length_text_blanked (token : Token) :
    token.blanked.text.length = token.text.length := by
  match token with
  | .word chars => rw [Token.blanked]
  | .call name blanks args =>
    rw [Token.blanked, Token.text_call, Token.text_call]
    simp only [List.length_append, List.length_cons, ArgumentList.length_text_blanked args]

/-- Arguments are as long with blanked trivia. -/
theorem ArgumentList.length_text_blanked (args : ArgumentList) :
    args.blanked.text.length = args.text.length := by
  match args with
  | [] => rfl
  | ⟨before, token, after⟩ :: rest =>
    rw [ArgumentList.blanked, ArgumentList.text, ArgumentList.text]
    simp only [List.length_append, List.length_cons, Keymap.length_blanked,
      Token.length_text_blanked token, ArgumentList.length_text_blanked rest]

end

/-! ## Keys -/

mutual

/-- A token with blanked trivia means the key that is read again where it stands. -/
theorem Token.reread_blanked {text : Text} {pos : Nat} (token : Token)
    (h : text.Holds pos token.blanked.text) :
    (token.key pos).reread text id id = token.blanked.key pos := by
  match token with
  | .word chars => rfl
  | .call name blanks args =>
    have hlength := Token.length_text_blanked (.call name blanks args)
    rw [Token.blanked] at h hlength ⊢
    have hinner := h
    rw [Token.text_call, Text.holds_append_iff, Text.holds_append_iff, Text.holds_cons_iff]
      at hinner
    have hargs := ArgumentList.rereadAll_blanked args hinner.2.2
    simp only [List.length_append, ← Nat.add_assoc] at hargs
    exact Token.reread_call rfl (by rw [hlength]; rfl) h hargs

/-- Arguments with blanked trivia mean the keys that are read again where they stand. -/
theorem ArgumentList.rereadAll_blanked {text : Text} {pos : Nat} (args : ArgumentList)
    (h : text.Holds pos args.blanked.text) :
    Node.rereadAll text id id (args.keys pos) = args.blanked.keys pos := by
  match args with
  | [] => rfl
  | ⟨before, token, after⟩ :: rest =>
    rw [ArgumentList.blanked, ArgumentList.text, Text.holds_append_iff, Text.holds_append_iff,
      Text.holds_append_iff, Text.holds_cons_iff] at h
    simp only [List.length_append, Keymap.length_blanked, Token.length_text_blanked,
      ← Nat.add_assoc] at h
    obtain ⟨⟨⟨-, htoken⟩, -⟩, -, hrest⟩ := h
    rw [ArgumentList.blanked, ArgumentList.keys, ArgumentList.keys, Node.rereadAll,
      Keymap.length_blanked, Keymap.length_blanked, Token.length_text_blanked,
      Token.reread_blanked token htoken, ArgumentList.rereadAll_blanked rest hrest]

end

/-! ## Sources -/

/-- The text from an offset on, with the comments and continued lines of the given invocations
blanked. -/
def blankLayers (opener text : Text) (pos : Nat) : List Invocation → Text
  | [] => text.drop pos
  | found :: rest =>
    text.slice pos (found.start + opener.length + 1) ++ blanked .code (found.body opener text) ++
      blankLayers opener text found.stop rest

/-- The passage with blanked trivia. -/
def Passage.blanked (passage : Passage) : Passage :=
  ⟨passage.gap, passage.args.blanked⟩

/-- The source with blanked trivia. -/
def Source.blanked (source : Source) : Source :=
  ⟨source.passages.map Passage.blanked, source.tail⟩

section

variable {opener : Text}

/-- A passage is as long with blanked trivia. -/
theorem Passage.length_text_blanked (passage : Passage) :
    (passage.blanked.text opener).length = (passage.text opener).length := by
  rw [length_text, length_text, blanked, ArgumentList.length_text_blanked]

/-- A passage fits with blanked trivia. -/
theorem Passage.Fits.blanked [Machine] {passage : Passage} (h : passage.Fits opener) :
    passage.blanked.Fits opener where
  gap := h.gap
  args_ne_nil := by
    rw [← List.length_pos_iff, Passage.blanked, ArgumentList.length_blanked, List.length_pos_iff]
    exact h.args_ne_nil
  args := ArgumentList.Fit.blanked h.args
  depth := by
    have hholds : (passage.args.blanked.text).Holds 0 passage.args.blanked.text := List.prefix_rfl
    rw [Passage.blanked, ← ArgumentList.rereadAll_blanked passage.args hholds,
      Node.depthAll_rereadAll]
    exact h.depth

/-- What is blanked in the text of passages are their trivia. -/
theorem blankLayers_invocations [Machine] (before after : Text) {passages : List Passage}
    (h : ∀ passage ∈ passages, passage.Fits opener) :
    blankLayers opener (before ++ passagesText opener passages ++ after) before.length
        (invocations opener before.length passages) =
      passagesText opener (passages.map Passage.blanked) ++ after := by
  induction passages generalizing before with
  | nil => simp [blankLayers, invocations]
  | cons passage rest ih =>
    obtain ⟨hpassage, hrest⟩ := List.forall_mem_cons.mp h
    have hbody := passage.body_invocation opener before (passagesText opener rest ++ after)
    have hlater := ih (before ++ passage.text opener) hrest
    -- The text up to the body is kept.
    have hlead : Text.slice (before ++ (passage.text opener ++ (passagesText opener rest ++ after)))
        before.length (before.length + passage.gap.length + opener.length + 1) =
        passage.gap ++ marker opener := by
      have hsplit : before ++ (passage.text opener ++ (passagesText opener rest ++ after)) =
          before ++ (passage.gap ++ marker opener) ++
            (passage.args.text ++ (passagesText opener rest ++ after)) := by
        simp [Passage.text]
      have hstop : before.length + passage.gap.length + opener.length + 1 =
          before.length + (passage.gap ++ marker opener).length := by
        simp only [marker, List.length_append, List.length_singleton, Nat.add_assoc]
      rw [hsplit, hstop, Text.slice_middle]
    rw [List.length_append] at hlater
    simp only [passagesText_cons, invocations, blankLayers, List.map_cons, List.append_assoc]
      at hbody hlater ⊢
    have hstart : (passage.invocation opener before.length).start =
        before.length + passage.gap.length := rfl
    have hstop : (passage.invocation opener before.length).stop =
        before.length + (passage.text opener).length := rfl
    -- Then the blanked body, and the layers behind it by induction.
    rw [hbody, hstart, hlead, hstop, hlater, ArgumentList.blanked_text hpassage.args]
    simp [Passage.text, Passage.blanked]

/-- The invocations of passages with blanked trivia are the same, read again where they stand. -/
theorem map_reread_blanked {text : Text} {pos : Nat} {passages : List Passage}
    (h : text.Holds pos (passagesText opener (passages.map Passage.blanked))) :
    (invocations opener pos passages).map (·.keys.map (Node.reread text id id)) =
      (invocations opener pos (passages.map Passage.blanked)).map (·.keys) := by
  induction passages generalizing pos with
  | nil => rfl
  | cons passage rest ih =>
    rw [List.map_cons, passagesText_cons, Text.holds_append_iff,
      Passage.length_text_blanked] at h
    obtain ⟨hpassage, hrest⟩ := h
    rw [Passage.text, Text.holds_append_iff, List.length_append, ← Nat.add_assoc] at hpassage
    have hkeys : Node.rereadAll text id id (passage.keys opener pos) =
        passage.blanked.keys opener pos := ArgumentList.rereadAll_blanked passage.args hpassage.2
    rw [Node.rereadAll_eq_map] at hkeys
    rw [List.map_cons, invocations, invocations, List.map_cons, List.map_cons,
      Passage.length_text_blanked, ih hrest, Passage.invocation, Passage.invocation, hkeys]

namespace Source

variable {source : Source} {size : Nat}

/-- What is blanked in the text of a source are its trivia. -/
theorem Fits.blankLayers_text [Machine] (h : source.Fits opener size) :
    blankLayers opener (source.text opener) 0 (invocations opener 0 source.passages) =
      source.blanked.text opener :=
  blankLayers_invocations [] source.tail h.passages

/-- A source fits with blanked trivia. -/
theorem Fits.blanked [Machine] (h : source.Fits opener size) : source.blanked.Fits opener size where
  passages_ne_nil := by simpa [Source.blanked] using h.passages_ne_nil
  passages := by
    intro passage hpassage
    obtain ⟨old, hold, rfl⟩ := List.mem_map.mp hpassage
    exact (h.passages old hold).blanked
  size := by
    intro passage hpassage
    obtain ⟨old, hold, rfl⟩ := List.mem_map.mp hpassage
    rw [Passage.blanked, ArgumentList.length_blanked]
    exact h.size old hold
  tail := h.tail

/-- A source with blanked trivia has the same outline, read again in its text. -/
theorem outline_blanked (source : Source) :
    source.blanked.outline opener =
      (source.outline opener).reread (source.blanked.text opener) id id := by
  have hholds : (source.blanked.text opener).Holds 0
      (passagesText opener (source.passages.map Passage.blanked)) := List.prefix_append ..
  have hlayers := map_reread_blanked hholds
  have hlength (passages : List Passage) :
      (passagesText opener (passages.map Passage.blanked)).length =
        (passagesText opener passages).length := by
    induction passages with
    | nil => rfl
    | cons passage rest ih =>
      rw [List.map_cons, passagesText_cons, passagesText_cons, List.length_append,
        List.length_append, ih, Passage.length_text_blanked]
  rw [outline, outline, Outline.reread, Source.blanked, hlength, List.map_map]
  exact congrArg (Outline.mk · _) hlayers.symm

end Source

/-! ## Texts -/

/-- Nothing is overwritten in a text that stays. -/
theorem overwrites_refl (text : Text) : List.Forall₂ Overwrites text text :=
  List.forall₂_same.mpr fun _ _ => .inl rfl

/-- Blanking overwrites characters of passages and leaves all others where they are. -/
theorem overwrites_passages [Machine] {passages : List Passage}
    (h : ∀ passage ∈ passages, passage.Fits opener) :
    List.Forall₂ Overwrites (passagesText opener passages)
      (passagesText opener (passages.map Passage.blanked)) := by
  induction passages with
  | nil => exact .nil
  | cons passage rest ih =>
    obtain ⟨hpassage, hrest⟩ := List.forall_mem_cons.mp h
    have hargs := overwrites_blanked .code passage.args.text
    rw [ArgumentList.blanked_text hpassage.args] at hargs
    rw [List.map_cons, passagesText_cons, passagesText_cons]
    exact List.rel_append (List.rel_append (overwrites_refl _) hargs) (ih hrest)

/-- The text with the comments and the continued lines of all its layers blanked. -/
def blankText [Machine] (text : Text) (keyCount : Option Int) (opener : Text) : Text :=
  blankLayers opener text 0 (readText text keyCount opener).found

/-- A text that parses does so to the same with the comments and the continued lines of its layers
blanked: names, words and offsets are the same. The contents of calls are what stands between their
offsets in either text. -/
theorem parse_blankText [Machine] {text opener : Text} {keyCount : Option Int} {outline : Outline}
    (h : parse text keyCount opener = .ok outline) :
    (blankText text keyCount opener).length = text.length ∧
      List.Forall₂ Overwrites text (blankText text keyCount opener) ∧
      outline = outline.reread text id id ∧
      parse (blankText text keyCount opener) keyCount opener =
        .ok (outline.reread (blankText text keyCount opener) id id) := by
  obtain ⟨source, size, hfits, hcount, rfl, rfl⟩ := (parse_eq_ok_iff ..).mp h
  have hblank : blankText (source.text opener) keyCount opener = source.blanked.text opener := by
    rw [blankText, hfits.found_readText, hfits.blankLayers_text]
  have hover : List.Forall₂ Overwrites (source.text opener) (source.blanked.text opener) :=
    List.rel_append (overwrites_passages hfits.passages) (overwrites_refl source.tail)
  have hparse : parse (source.blanked.text opener) keyCount opener =
      .ok (source.blanked.outline opener) :=
    (parse_eq_ok_iff ..).mpr ⟨source.blanked, size, hfits.blanked, hcount, rfl, rfl⟩
  -- The contents of a text's own calls are read from it.
  have hself : Moved (source.text opener) id id 0 0 (passagesText opener source.passages) :=
    ⟨List.prefix_append .., fun _ _ => rfl, fun _ _ _ => rfl⟩
  have hkeys := map_reread_invocations hfits.passages hself
  rw [hblank]
  refine ⟨hover.length_eq.symm, hover, ?_, by rw [hparse, source.outline_blanked]⟩
  rw [Source.outline, Outline.reread, List.map_map]
  exact congrArg (Outline.mk · _) hkeys.symm

end

open Usual

/-- Comments of both kinds, with delimiters in them, and a continued line. -/
theorem parse_blankText_delimiters :
    blankText "K(A /*,(*/, f(B // )\n, C\\\n))".toList none "K".toList =
        "K(A       , f(B      , C  ))".toList ∧
      parse "K(A       , f(B      , C  ))".toList none "K".toList =
        .ok ⟨[[.word "A".toList 2 3, .call "f".toList [.word "B".toList 14 15,
          .word "C".toList 23 24] 12 27 "f(B      , C  )".toList]], 28⟩ := by
  have hparse : parse "K(A /*,(*/, f(B // )\n, C\\\n))".toList none "K".toList =
      .ok ⟨[[.word "A".toList 2 3, .call "f".toList [.word "B".toList 14 15,
        .word "C".toList 23 24] 12 27 "f(B // )\n, C\\\n)".toList]], 28⟩ := by decide +kernel
  have hblank : blankText "K(A /*,(*/, f(B // )\n, C\\\n))".toList none "K".toList =
      "K(A       , f(B      , C  ))".toList := by decide +kernel
  obtain ⟨-, -, -, hparse'⟩ := parse_blankText hparse
  rw [hblank] at hparse'
  exact ⟨hblank, hparse'⟩

end Keymap
