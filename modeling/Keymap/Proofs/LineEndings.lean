import Keymap.Proofs.Balanced
import Keymap.Proofs.Continuation
import Keymap.Proofs.Source

/-!
# Line endings

What becomes of a source text when all its lines are ended by a carriage return and a newline. The
blanks between tokens and the ends of comments are the same with both endings. A backslash continues
a line only if the newline follows it directly, so lines that are continued are the exception.

## Key results

- `Trivia.crlf` — trivia in which no line is continued are trivia with either line ending
- `ArgumentList.Fit.crlf` — and so arguments fit with either line ending
- `parse_crlf_iff` — a text parses to the same words and calls with either line ending exactly if no
  line of a layer is continued
-/

namespace Keymap

/-! ## Carriage returns -/

/-- The text with a carriage return before every newline. -/
def crlf (text : Text) : Text :=
  text.flatMap fun c => if c = '\n' then ['\r', '\n'] else [c]

@[simp] theorem crlf_nil : crlf [] = [] := rfl

@[simp] theorem crlf_newline (text : Text) : crlf ('\n' :: text) = '\r' :: '\n' :: crlf text := rfl

@[simp] theorem crlf_append (a b : Text) : crlf (a ++ b) = crlf a ++ crlf b := by
  simp [crlf]

theorem crlf_cons {c : Char} (hc : c ≠ '\n') (text : Text) : crlf (c :: text) = c :: crlf text := by
  simp [crlf, hc]

/-- A text in one line stays as it is. -/
theorem crlf_eq_self {text : Text} (h : '\n' ∉ text) : crlf text = text := by
  induction text with
  | nil => rfl
  | cons c text ih =>
    simp only [List.mem_cons, not_or] at h
    rw [crlf_cons (Ne.symm h.1), ih h.2]

/-- A mark in one line that does not end with a carriage return begins the text with either line
ending. -/
private theorem isPrefix_crlf {mark text : Text} (hline : '\n' ∉ mark)
    (hlast : mark.getLast? ≠ some '\r') (h : mark <+: crlf text) : mark <+: text := by
  induction mark generalizing text with
  | nil => exact List.nil_prefix
  | cons m mark ih =>
    simp only [List.mem_cons, not_or] at hline
    cases text with
    | nil => simp at h
    | cons c text =>
      by_cases hc : c = '\n'
      · -- The mark would go on with the newline behind the carriage return.
        subst hc
        rw [crlf_newline] at h
        obtain ⟨rfl, hrest⟩ := List.cons_prefix_cons.mp h
        cases mark with
        | nil => exact absurd rfl hlast
        | cons d mark =>
          obtain ⟨hd, -⟩ := List.cons_prefix_cons.mp hrest
          exact absurd (hd ▸ List.mem_cons_self) hline.2
      · rw [crlf_cons hc] at h
        obtain ⟨rfl, hrest⟩ := List.cons_prefix_cons.mp h
        refine List.cons_prefix_cons.mpr ⟨rfl, ?_⟩
        cases mark with
        | nil => exact List.nil_prefix
        | cons d mark => exact ih hline.2 (by simpa using hlast) hrest

/-- A mark in one line that does not end with a carriage return stands in no more texts with either
line ending. -/
theorem isInfix_crlf {mark text : Text} (hline : '\n' ∉ mark)
    (hlast : mark.getLast? ≠ some '\r') (h : mark <:+: crlf text) : mark <:+: text := by
  induction text with
  | nil => simpa using h
  | cons c text ih =>
    by_cases hc : c = '\n'
    · subst hc
      rw [crlf_newline, List.infix_cons_iff, List.infix_cons_iff] at h
      rcases h with h | h | h
      · exact (@isPrefix_crlf mark ('\n' :: text) hline hlast h).isInfix
      · -- The mark does not begin with the newline.
        cases mark with
        | nil => exact List.nil_infix
        | cons d mark =>
          obtain ⟨rfl, -⟩ := List.cons_prefix_cons.mp h
          exact absurd List.mem_cons_self hline
      · exact List.infix_cons (ih h)
    · rw [crlf_cons hc, List.infix_cons_iff, ← crlf_cons hc] at h
      rcases h with h | h
      · exact (isPrefix_crlf hline hlast h).isInfix
      · exact List.infix_cons (ih h)

/-! ## Trivia -/

namespace Trivia

/-- Trivia in which no line is continued are trivia with either line ending. -/
theorem crlf {a : Text} (h : Trivia a) (hjoined : ¬ Continued a) : Trivia (crlf a) := by
  induction h with
  | nil => exact .nil
  | @blank c a hc _ ih =>
    rw [Continued, uncommented_cons_of_ne (ne_slash_of_isBlank hc)] at hjoined
    have hrest := ih fun hwithin => hjoined (hwithin.of_isInfix (List.suffix_cons _ _).isInfix)
    by_cases hnewline : c = '\n'
    · subst hnewline
      exact .blank rfl (.blank rfl hrest)
    · rw [crlf_cons hnewline]
      exact .blank hc hrest
  | @block body a hbody _ ih =>
    rw [Continued, uncommented, uncommented_block a hbody] at hjoined
    have hrest := ih fun hwithin => hjoined (hwithin.of_isInfix (List.suffix_cons _ _).isInfix)
    -- No end of a comment comes about in the body.
    have hbody' : ¬ ['*', '/'] <:+: Keymap.crlf body ++ ['*'] := fun hwithin =>
      hbody (isInfix_crlf (by decide) (by decide) (by simpa [crlf_cons] using hwithin))
    simpa [crlf_cons] using Trivia.block hbody' hrest
  | @line body a hbody _ ih =>
    rw [Continued, uncommented, uncommented_line a hbody] at hjoined
    have hrest := ih fun hwithin => hjoined (hwithin.of_isInfix (List.suffix_cons _ _).isInfix)
    -- The carriage return belongs to the comment.
    have hbody' : '\n' ∉ body ++ ['\r'] := by simpa using hbody
    simpa [crlf_cons, crlf_eq_self hbody] using Trivia.line hbody' hrest
  | @continued a _ _ =>
    rw [Continued, uncommented_cons_of_ne (by decide), uncommented_cons_of_ne (by decide)]
      at hjoined
    exact absurd ⟨[], uncommented .code a, rfl⟩ hjoined

end Trivia

/-! ## Words -/

/-- Blanks are blank with either line ending. -/
theorem Text.AllBlank.crlf {a : Text} (h : a.AllBlank) : AllBlank (crlf a) := by
  intro c hc
  simp only [Keymap.crlf, List.mem_flatMap] at hc
  obtain ⟨d, hd, hc⟩ := hc
  split at hc
  · simp only [List.mem_cons, List.not_mem_nil, or_false] at hc
    rcases hc with rfl | rfl <;> rfl
  · obtain rfl := List.mem_singleton.mp hc
    exact h _ hd

/-- A word before trivia is the longest one with either line ending. -/
theorem Text.word_append_crlf {w after : Text} (h : word (w ++ after) = w)
    (hafter : word (crlf after) = []) : word (w ++ crlf after) = w := by
  refine word_append_of_word h hafter fun c hc d hd => ?_
  cases after with
  | nil => exact nomatch hd
  | cons e after =>
    by_cases he : e = '\n'
    · -- A carriage return makes no pair with anything.
      subst he
      obtain rfl : '\r' = d := Option.some.inj hd
      simp [isPair]
    · rw [crlf_cons he] at hd
      exact isPair_of_word h hc hd

/-! ## Arguments -/

mutual

/-- The token with a carriage return before every newline. -/
def Token.crlf : Token → Token
  | .word chars => .word chars
  | .call name blanks args => .call name (Keymap.crlf blanks) (ArgumentList.crlf args)

/-- The arguments with a carriage return before every newline. -/
def ArgumentList.crlf : ArgumentList → ArgumentList
  | [] => []
  | ⟨before, token, after⟩ :: rest =>
    ⟨Keymap.crlf before, token.crlf, Keymap.crlf after⟩ :: ArgumentList.crlf rest

end

mutual

/-- With either line ending a token says the same. -/
theorem Token.form_key_crlf (token : Token) (pos pos' : Nat) :
    (token.crlf.key pos').form = (token.key pos).form := by
  match token with
  | .word chars => rfl
  | .call name blanks args =>
    rw [Token.crlf, Token.key, Token.key, Node.form, Node.form, ArgumentList.formAll_keys_crlf]

/-- With either line ending arguments say the same. -/
theorem ArgumentList.formAll_keys_crlf (args : ArgumentList) (pos pos' : Nat) :
    Node.formAll (ArgumentList.keys pos' (ArgumentList.crlf args)) =
      Node.formAll (ArgumentList.keys pos args) := by
  match args with
  | [] => rfl
  | ⟨before, token, after⟩ :: rest =>
    rw [ArgumentList.crlf, ArgumentList.keys, ArgumentList.keys, Node.formAll, Node.formAll,
      Token.form_key_crlf, ArgumentList.formAll_keys_crlf]

end

/-- What arguments say does not depend on where they stand. -/
theorem ArgumentList.formAll_keys (args : ArgumentList) (pos pos' : Nat) :
    Node.formAll (args.keys pos') = Node.formAll (args.keys pos) :=
  (args.formAll_keys_crlf pos' 0).symm.trans (args.formAll_keys_crlf pos 0)

/-- There are as many arguments with either line ending. -/
theorem ArgumentList.length_crlf (args : ArgumentList) : args.crlf.length = args.length := by
  induction args with
  | nil => rfl
  | cons arg rest ih =>
    obtain ⟨before, token, after⟩ := arg
    rw [ArgumentList.crlf, List.length_cons, ih, List.length_cons]

mutual

/-- The text of a token with carriage returns. -/
theorem Token.text_crlf {token : Token} {after : Text} (h : token.Fits after) :
    token.crlf.text = Keymap.crlf token.text := by
  match token with
  | .word chars =>
    rw [Token.Fits] at h
    rw [Token.crlf, Token.text_word, crlf_eq_self (Text.newline_not_mem_of_word h.2)]
  | .call name blanks args =>
    rw [Token.Fits] at h
    obtain ⟨-, hname, -, -, hargs⟩ := h
    simp only [Token.crlf, Token.text_call, crlf_append,
      crlf_eq_self (Text.newline_not_mem_of_word hname), ArgumentList.text_crlf hargs]
    rw [crlf_cons (by decide)]

/-- The text of arguments with carriage returns. -/
theorem ArgumentList.text_crlf {args : ArgumentList} (h : args.Fit) :
    args.crlf.text = Keymap.crlf args.text := by
  match args with
  | [] => rfl
  | ⟨before, token, after⟩ :: rest =>
    rw [ArgumentList.Fit] at h
    obtain ⟨-, htoken, -, hrest⟩ := h
    have hcloser : closer (ArgumentList.crlf rest) = closer rest := by cases rest <;> rfl
    have hline : closer rest ≠ '\n' := ne_of_isDelimiter (isDelimiter_closer rest) rfl
    rw [ArgumentList.crlf, ArgumentList.text, ArgumentList.text, hcloser, Token.text_crlf htoken,
      ArgumentList.text_crlf hrest]
    simp only [crlf_append, crlf_cons hline]

end

mutual

/-- A token fits with either line ending if no line in it is continued. -/
theorem Token.Fits.crlf {token : Token} {after : Text} (h : token.Fits after)
    (hafter : Trivia (Keymap.crlf after)) (hjoined : ¬ Joined token.bare) :
    token.crlf.Fits (Keymap.crlf after) := by
  match token with
  | .word chars =>
    rw [Token.Fits] at h
    rw [Token.crlf, Token.Fits]
    -- What follows a word still begins with no part of one.
    have hnone : Text.word (Keymap.crlf after) = [] := by
      simpa using hafter.word_append Text.word_nil
    exact ⟨h.1, Text.word_append_crlf h.2 hnone⟩
  | .call name blanks args =>
    rw [Token.Fits] at h
    obtain ⟨hne, hname, hblanks, hargs, hfit⟩ := h
    rw [Token.crlf, Token.Fits]
    have hnone : Text.word (Keymap.crlf blanks) = [] := by
      simpa using (Trivia.of_allBlank hblanks.crlf).word_append Text.word_nil
    refine ⟨hne, Text.word_append_crlf hname hnone, hblanks.crlf, ?_, ?_⟩
    · rw [← List.length_pos_iff, ArgumentList.length_crlf, List.length_pos_iff]
      exact hargs
    · -- The arguments show no joined lines, as the token that they stand in shows none.
      apply ArgumentList.Fit.crlf hfit
      rw [Token.bare] at hjoined
      exact fun hwithin => hjoined (hwithin.of_isInfix ⟨name ++ blanks ++ ['('], [], by simp⟩)

/-- Arguments fit with either line ending if no line in them is continued. -/
theorem ArgumentList.Fit.crlf {args : ArgumentList} (h : args.Fit)
    (hjoined : ¬ Joined args.bare) : args.crlf.Fit := by
  match args with
  | [] => exact h
  | ⟨before, token, after⟩ :: rest =>
    rw [ArgumentList.Fit] at h
    obtain ⟨hbefore, htoken, hafter, hrest⟩ := h
    rw [ArgumentList.bare] at hjoined
    -- Each part stands within the whole.
    have hbefore' : ¬ Continued before := fun hwithin => hjoined <|
      hwithin.of_isInfix ⟨[], token.bare ++ uncommented .code after ++
        closer rest :: ArgumentList.bare rest, by simp⟩
    have htoken' : ¬ Joined token.bare := fun hwithin => hjoined <|
      hwithin.of_isInfix ⟨uncommented .code before, uncommented .code after ++
        closer rest :: ArgumentList.bare rest, by simp⟩
    have hafter' : ¬ Continued after := fun hwithin => hjoined <|
      hwithin.of_isInfix ⟨uncommented .code before ++ token.bare,
        closer rest :: ArgumentList.bare rest, by simp⟩
    have hrest' : ¬ Joined (ArgumentList.bare rest) := fun hwithin => hjoined <|
      hwithin.of_isInfix ⟨uncommented .code before ++ token.bare ++ uncommented .code after ++
        [closer rest], [], by simp⟩
    rw [ArgumentList.crlf, ArgumentList.Fit]
    exact ⟨hbefore.crlf hbefore', htoken.crlf (hafter.crlf hafter') htoken', hafter.crlf hafter',
      hrest.crlf hrest'⟩

end

/-! ## Sources -/

/-- The characters of an invocation behind its opening parenthesis. -/
def Invocation.body (opener text : Text) (found : Invocation) : Text :=
  text.slice (found.start + opener.length + 1) found.stop

/-- The body of the invocation of a passage is the characters of its arguments. -/
theorem Passage.body_invocation (opener before after : Text) (passage : Passage) :
    (passage.invocation opener before.length).body opener
      (before ++ passage.text opener ++ after) = passage.args.text := by
  have hsplit : before ++ passage.text opener ++ after =
      (before ++ passage.gap ++ marker opener) ++ passage.args.text ++ after := by
    simp [Passage.text]
  have hstart : before.length + passage.gap.length + opener.length + 1 =
      (before ++ passage.gap ++ marker opener).length := by
    simp only [marker, List.length_append, List.length_singleton, Nat.add_assoc]
  have hstop : before.length + (passage.text opener).length =
      (before ++ passage.gap ++ marker opener).length + passage.args.text.length := by
    rw [← hstart, Passage.length_text]
    simp only [Nat.add_assoc]
  show Text.slice _ (before.length + passage.gap.length + opener.length + 1)
    (before.length + (passage.text opener).length) = _
  rw [hsplit, hstart, hstop, Text.slice_middle]

/-- The bodies of the invocations of passages are the characters of their arguments. -/
theorem map_body_invocations (opener before after : Text) (passages : List Passage) :
    (invocations opener before.length passages).map
        (·.body opener (before ++ passagesText opener passages ++ after)) =
      passages.map (·.args.text) := by
  induction passages generalizing before with
  | nil => rfl
  | cons passage rest ih =>
    have hbody := passage.body_invocation opener before (passagesText opener rest ++ after)
    have hrest := ih (before ++ passage.text opener)
    rw [List.length_append] at hrest
    simp only [passagesText_cons, invocations, List.map_cons, List.append_assoc] at hbody hrest ⊢
    rw [hbody, hrest]

/-- The passage with a carriage return before every newline. -/
def Passage.crlf (passage : Passage) : Passage :=
  ⟨Keymap.crlf passage.gap, passage.args.crlf⟩

/-- The source with a carriage return before every newline. -/
def Source.crlf (source : Source) : Source :=
  ⟨source.passages.map Passage.crlf, Keymap.crlf source.tail⟩

section

variable {opener : Text}

/-- An opener stands in one line with its parenthesis. -/
theorem crlf_marker (hopener : '\n' ∉ opener) : crlf (marker opener) = marker opener :=
  crlf_eq_self (by simpa [marker] using hopener)

/-- No marker comes about with either line ending. -/
theorem marker_not_within_crlf (hopener : '\n' ∉ opener) {text : Text}
    (h : ¬ marker opener <:+: text) : ¬ marker opener <:+: crlf text :=
  fun hwithin => h (isInfix_crlf (by simpa [marker] using hopener) (by simp [marker]) hwithin)

namespace Passage

variable {passage : Passage}

/-- The text of a passage with carriage returns. -/
theorem text_crlf [Machine] (h : passage.Fits opener) (hopener : '\n' ∉ opener) :
    passage.crlf.text opener = Keymap.crlf (passage.text opener) := by
  rw [text, text, crlf_append, crlf_append, crlf_marker hopener, Passage.crlf,
    ArgumentList.text_crlf h.args]

/-- The marker of a passage comes first with either line ending. -/
theorem Fits.gap_crlf [Machine] (h : passage.Fits opener) (hopener : '\n' ∉ opener) :
    ¬ marker opener <:+: Keymap.crlf passage.gap ++ opener := by
  have hgap := marker_not_within_crlf hopener h.gap
  rwa [crlf_append, crlf_eq_self hopener] at hgap

/-- A passage fits with either line ending if no line in it is continued. -/
theorem Fits.crlf [Machine] (h : passage.Fits opener) (hopener : '\n' ∉ opener)
    (hjoined : ¬ Continued passage.args.text) : passage.crlf.Fits opener where
  gap := h.gap_crlf hopener
  args_ne_nil := by
    rw [← List.length_pos_iff, Passage.crlf, ArgumentList.length_crlf, List.length_pos_iff]
    exact h.args_ne_nil
  args := by
    rw [Continued, ArgumentList.uncommented_text h.args] at hjoined
    exact h.args.crlf hjoined
  depth := by
    rw [Passage.crlf, Node.depthAll_congr (ArgumentList.formAll_keys_crlf passage.args 0 0)]
    exact h.depth

end Passage

/-- The text of passages with carriage returns. -/
theorem passagesText_crlf [Machine] {passages : List Passage}
    (h : ∀ passage ∈ passages, passage.Fits opener) (hopener : '\n' ∉ opener) :
    passagesText opener (passages.map Passage.crlf) = crlf (passagesText opener passages) := by
  induction passages with
  | nil => rfl
  | cons passage rest ih =>
    obtain ⟨hpassage, hrest⟩ := List.forall_mem_cons.mp h
    rw [List.map_cons, passagesText_cons, passagesText_cons, crlf_append,
      Passage.text_crlf hpassage hopener, ih hrest]

namespace Source

variable {source : Source} {size : Nat}

/-- The text of a source with carriage returns. -/
theorem text_crlf [Machine] (h : source.Fits opener size) (hopener : '\n' ∉ opener) :
    source.crlf.text opener = Keymap.crlf (source.text opener) := by
  rw [text, text, crlf_append, Source.crlf, passagesText_crlf h.passages hopener]

/-- What the keys of a source say does not depend on where they stand. -/
theorem forms_outline (source : Source) :
    (source.outline opener).forms =
      source.passages.map fun passage => Node.formAll (passage.args.keys 0) := by
  rw [Outline.forms, outline, List.map_map]
  suffices ∀ pos, (invocations opener pos source.passages).map (Node.formAll ∘ (·.keys)) =
      source.passages.map fun passage => Node.formAll (passage.args.keys 0) from this 0
  induction source.passages with
  | nil => exact fun _ => rfl
  | cons passage rest ih =>
    intro pos
    rw [invocations, List.map_cons, ih, List.map_cons]
    congr 1
    exact ArgumentList.formAll_keys passage.args _ _

/-- The keys of a source say the same with either line ending. -/
theorem forms_crlf (source : Source) :
    (source.crlf.outline opener).forms = (source.outline opener).forms := by
  rw [forms_outline, forms_outline, Source.crlf, List.map_map]
  exact List.map_congr_left fun passage _ => ArgumentList.formAll_keys_crlf passage.args 0 0

/-- A source fits with either line ending if no line of a layer is continued. -/
theorem Fits.crlf [Machine] (h : source.Fits opener size) (hopener : '\n' ∉ opener)
    (hjoined : ∀ passage ∈ source.passages, ¬ Continued passage.args.text) :
    source.crlf.Fits opener size where
  passages_ne_nil := by simpa [Source.crlf] using h.passages_ne_nil
  passages := by
    intro passage hpassage
    obtain ⟨old, hold, rfl⟩ := List.mem_map.mp hpassage
    exact (h.passages old hold).crlf hopener (hjoined old hold)
  size := by
    intro passage hpassage
    obtain ⟨old, hold, rfl⟩ := List.mem_map.mp hpassage
    rw [Passage.crlf, ArgumentList.length_crlf]
    exact h.size old hold
  tail := marker_not_within_crlf hopener h.tail

/-- What holds of all bodies that are read from a source holds of all its arguments. -/
theorem Fits.forall_body_iff [Machine] (h : source.Fits opener size) (keyCount : Option Int)
    (p : Text → Prop) :
    (∀ found ∈ (readText (source.text opener) keyCount opener).found,
        p (found.body opener (source.text opener))) ↔
      ∀ passage ∈ source.passages, p passage.args.text := by
  have hbodies : (invocations opener 0 source.passages).map
      (·.body opener (source.text opener)) = source.passages.map (·.args.text) :=
    map_body_invocations opener [] source.tail source.passages
  rw [h.found_readText, ← List.forall_mem_map (P := p), hbodies, List.forall_mem_map]

end Source

end

/-! ## Reading back -/

/-- Only a newline at the head of a text is changed. -/
theorem head?_crlf (text : Text) :
    (crlf text).head? = text.head?.map fun c => if c = '\n' then '\r' else c := by
  cases text with
  | nil => rfl
  | cons c text =>
    by_cases hc : c = '\n'
    · rw [hc]
      rfl
    · simp [crlf_cons hc, hc]

/-- No newline comes first with carriage returns. -/
theorem head?_crlf_ne_newline (text : Text) : (crlf text).head? ≠ some '\n' := by
  rw [head?_crlf]
  intro hhead
  obtain ⟨c, -, heq⟩ := Option.map_eq_some_iff.mp hhead
  split at heq
  · exact nomatch heq
  · exact absurd heq ‹_›

/-- No character but a carriage return comes to the head of a text. -/
theorem head?_crlf_ne {text : Text} {d : Char} (hd : d ≠ '\r') (h : text.head? ≠ some d) :
    (crlf text).head? ≠ some d := by
  rw [head?_crlf]
  intro hhead
  obtain ⟨c, hc, heq⟩ := Option.map_eq_some_iff.mp hhead
  split at heq
  · exact hd heq.symm
  · exact h (heq ▸ hc)

/-- With carriage returns there are as many backslashes outside comments. -/
theorem count_uncommented_crlf (region : Region) (text : Text) :
    (uncommented region (crlf text)).count '\\' = (uncommented region text).count '\\' := by
  -- One case for each rule of `uncommented`. Only those with a newline differ, by a return before
  -- it.
  fun_induction uncommented region text with
  | case1 region => rw [crlf_nil, uncommented]
  | case2 rest ih => simp [crlf_cons, uncommented, ih]
  | case3 rest ih => simp [crlf_cons, uncommented, ih]
  | case4 c rest hblock hline ih =>
    by_cases hc : c = '\n'
    · subst hc
      rw [crlf_newline, uncommented_cons_of_ne (by decide), uncommented_cons_of_ne (by decide)]
      simp [ih]
    · -- No comment begins here, before or after the change: its second character would have to be
      -- next.
      have hnone : c = '/' → rest.head? ≠ some '*' ∧ rest.head? ≠ some '/' := by
        intro hslash
        constructor <;> intro hhead <;> obtain ⟨more, hmore⟩ := List.head?_eq_some_iff.mp hhead
        · exact hblock more hslash hmore
        · exact hline more hslash hmore
      rw [crlf_cons hc, uncommented_cons fun hslash =>
        ⟨head?_crlf_ne (by decide) (hnone hslash).1, head?_crlf_ne (by decide) (hnone hslash).2⟩]
      simp [List.count_cons, ih]
  | case5 rest ih => simp [crlf_cons, uncommented, ih]
  | case6 c rest hend ih =>
    by_cases hc : c = '\n'
    · subst hc
      rw [crlf_newline, uncommented_block_cons (fun h => absurd h (by decide)),
        uncommented_block_cons (fun h => absurd h (by decide)), ih]
    · -- Nor does a comment end here.
      have hnone : c = '*' → rest.head? ≠ some '/' := by
        intro hstar hhead
        obtain ⟨more, hmore⟩ := List.head?_eq_some_iff.mp hhead
        exact hend more hstar hmore
      rw [crlf_cons hc, uncommented_block_cons fun hstar => head?_crlf_ne (by decide) (hnone hstar),
        ih]
  | case7 rest ih =>
    rw [crlf_newline, uncommented_line_cons (by decide), uncommented, ih]
  | case8 c rest hc ih => rw [crlf_cons hc, uncommented_line_cons hc, ih]

/-- With carriage returns no line is joined to the next one. -/
theorem not_joined_crlf (text : Text) : ¬ Joined (crlf text) := by
  induction text with
  | nil => simp [Joined]
  | cons c text ih =>
    by_cases hc : c = '\n'
    · subst hc
      exact not_joined_cons (by decide) (not_joined_cons (by decide) ih)
    · rw [crlf_cons hc]
      have hone : ¬ Joined [c] := fun h => absurd h.length_le (by simp)
      exact not_joined_append hone ih fun _ => head?_crlf_ne_newline text

/-- A comment is one with either line ending. -/
theorem Comment.crlf {a : Text} (h : Comment a) : Comment (crlf a) := by
  cases h with
  | @block body hbody =>
    have hbody' : ¬ ['*', '/'] <:+: Keymap.crlf body ++ ['*'] := fun hwithin =>
      hbody (isInfix_crlf (by decide) (by decide) (by simpa [crlf_cons] using hwithin))
    simpa [crlf_cons] using Comment.block hbody'
  | @line body hbody =>
    have hbody' : '\n' ∉ body ++ ['\r'] := by simpa using hbody
    simpa [crlf_cons, crlf_eq_self hbody] using Comment.line hbody'

/-- Balanced text is balanced with either line ending. -/
theorem Balanced.crlf {a : Text} (h : Balanced a) : Balanced (crlf a) := by
  induction h with
  | nil => exact .nil
  | @char c rest hopen hclose hcomment _ ih =>
    by_cases hc : c = '\n'
    · subst hc
      exact .cons (by decide) (.cons (by decide) ih)
    · rw [crlf_cons hc]
      refine .char hopen hclose (fun hslash => ?_) ih
      -- What comes next begins with the same character, or with a return.
      obtain ⟨hstar, hslash'⟩ := hcomment hslash
      exact ⟨head?_crlf_ne (by decide) hstar, head?_crlf_ne (by decide) hslash'⟩
  | comment hcomment _ ih =>
    rw [crlf_append]
    exact .comment hcomment.crlf ih
  | nest _ _ ihinner ihrest =>
    simpa [crlf_cons] using Balanced.nest ihinner ihrest

/-- Arguments that are read back from a text with carriage returns have more backslashes in their
words if a line of them was continued. -/
theorem ArgumentList.not_continued_of_crlf {args args' : ArgumentList} (h : args.Fit)
    (h' : args'.Fit) (htext : args'.text = Keymap.crlf args.text)
    (hforms : Node.formAll (args'.keys 0) = Node.formAll (args.keys 0)) :
    ¬ Continued args.text := by
  have hbare : args'.bare.count '\\' = args.bare.count '\\' := by
    rw [← ArgumentList.uncommented_text h', htext, count_uncommented_crlf,
      ArgumentList.uncommented_text h]
  have heq : args'.bare.count '\\' =
      (Form.charsAll (Node.formAll (args'.keys 0))).count '\\' := by
    rcases h'.joined_or 0 with ⟨hjoined, -⟩ | ⟨-, heq⟩
    · rw [htext] at hjoined
      exact absurd hjoined (not_joined_crlf args.text)
    · exact heq
  rw [Continued, ArgumentList.uncommented_text h]
  rcases h.joined_or 0 with ⟨-, hlt⟩ | ⟨hjoined, -⟩
  · rw [← hforms] at hlt
    omega
  · exact hjoined

/-- Where arguments end is determined by the text before their closing parenthesis, with either line
ending. -/
theorem ArgumentList.text_eq_crlf {args args' : ArgumentList} (hne : args ≠ []) (h : args.Fit)
    (hne' : args' ≠ []) (h' : args'.Fit) {rest rest' : Text}
    (heq : args'.text ++ rest' = Keymap.crlf args.text ++ rest) :
    args'.text = Keymap.crlf args.text := by
  obtain ⟨inner, htext, hinner⟩ := ArgumentList.balanced_text h hne
  obtain ⟨inner', htext', hinner'⟩ := ArgumentList.balanced_text h' hne'
  have hcrlf : Keymap.crlf args.text = Keymap.crlf inner ++ [')'] := by
    rw [htext, crlf_append]
    rfl
  rw [htext', hcrlf] at heq ⊢
  rw [hinner'.eq_of_append hinner.crlf (by simpa using heq)]

/-- If passages are read back from a text with carriage returns and say the same as before, no line
of a layer was continued. -/
theorem forall_not_continued [Machine] {opener : Text} (hopener : '\n' ∉ opener)
    {passages passages' : List Passage} {tail tail' : Text}
    (hfits : ∀ passage ∈ passages, passage.Fits opener)
    (hfits' : ∀ passage ∈ passages', passage.Fits opener)
    (heq : passagesText opener passages' ++ tail' = crlf (passagesText opener passages ++ tail))
    (hforms : passages'.map (fun passage => Node.formAll (passage.args.keys 0)) =
      passages.map (fun passage => Node.formAll (passage.args.keys 0))) :
    ∀ passage ∈ passages, ¬ Continued passage.args.text := by
  induction passages generalizing passages' with
  | nil => exact fun _ h => nomatch h
  | cons passage rest ih =>
    cases passages' with
    | nil => exact nomatch hforms
    | cons passage' rest' =>
      obtain ⟨hpassage, hrest⟩ := List.forall_mem_cons.mp hfits
      obtain ⟨hpassage', hrest'⟩ := List.forall_mem_cons.mp hfits'
      obtain ⟨hform, hlater⟩ := List.cons.inj hforms
      -- The marker stands at the same place, and the arguments go on to the same parenthesis.
      have hsplit : passage'.gap ++ marker opener ++
          (passage'.args.text ++ (passagesText opener rest' ++ tail')) =
          crlf passage.gap ++ marker opener ++
            (crlf passage.args.text ++ crlf (passagesText opener rest ++ tail)) := by
        rw [passagesText_cons, passagesText_cons, Passage.text, Passage.text] at heq
        simpa [crlf_marker hopener] using heq
      have hgap : passage'.gap = crlf passage.gap :=
        eq_of_leftmost opener hpassage'.gap (hpassage.gap_crlf hopener) hsplit
      rw [hgap] at hsplit
      have hbody := List.append_cancel_left hsplit
      -- Both sides spell the same arguments, and what is behind them is left for the induction.
      have htext := ArgumentList.text_eq_crlf hpassage.args_ne_nil hpassage.args
        hpassage'.args_ne_nil hpassage'.args hbody
      rw [htext] at hbody
      exact List.forall_mem_cons.mpr
        ⟨ArgumentList.not_continued_of_crlf hpassage.args hpassage'.args htext hform,
          ih hrest hrest' (List.append_cancel_left hbody) hlater⟩

/-! ## Parsing -/

/-- A text that parses does so with either line ending to the same words and calls, in as many
layers, exactly if no line of a layer is continued outside comments. -/
theorem parse_crlf_iff [Machine] {text opener : Text} {keyCount : Option Int} {outline : Outline}
    (hopener : '\n' ∉ opener) (hparse : parse text keyCount opener = .ok outline) :
    (∃ outline', parse (crlf text) keyCount opener = .ok outline' ∧
        outline'.forms = outline.forms) ↔
      ∀ found ∈ (readText text keyCount opener).found,
        ¬ Continued (found.body opener text) := by
  obtain ⟨source, size, hfits, hcount, rfl, rfl⟩ := (parse_eq_ok_iff ..).mp hparse
  rw [hfits.forall_body_iff keyCount (¬ Continued ·)]
  constructor
  · intro hparts
    obtain ⟨outline', hparse', hforms⟩ := hparts
    obtain ⟨source', size', hfits', -, htext, rfl⟩ := (parse_eq_ok_iff ..).mp hparse'
    rw [Source.forms_outline, Source.forms_outline] at hforms
    exact forall_not_continued hopener hfits.passages hfits'.passages htext.symm hforms
  · intro hjoined
    have hcrlf := hfits.crlf hopener hjoined
    refine ⟨_, (parse_eq_ok_iff _ keyCount opener _).mpr
      ⟨source.crlf, size, hcrlf, hcount, ?_, rfl⟩, source.forms_crlf⟩
    rw [Source.text_crlf hfits hopener]

open Usual

/-- A line comment that ends with a backslash continues nothing. -/
theorem parse_crlf_line_comment :
    ∃ outline', parse (crlf "K(A, // \\\n f(B))".toList) none "K".toList = .ok outline' ∧
      outline'.forms = [[.word "A".toList, .call "f".toList [.word "B".toList]]] := by
  have hparse : parse "K(A, // \\\n f(B))".toList none "K".toList =
      .ok ⟨[[.word "A".toList 2 3, .call "f".toList [.word "B".toList 13 14]
        11 15 "f(B)".toList]], 16⟩ := by cbv
  have hfound : (readText "K(A, // \\\n f(B))".toList none "K".toList).found =
      [⟨0, [.word "A".toList 2 3, .call "f".toList [.word "B".toList 13 14]
        11 15 "f(B)".toList], 16⟩] := by decide +kernel
  refine (parse_crlf_iff (by decide) hparse).mpr ?_
  rw [hfound, List.forall_mem_singleton]
  show ¬ ['\\', '\n'] <:+: uncommented .code _
  decide

/-- Where a line is continued, the word before it may change, or the text may no longer parse. -/
theorem forms_parse_crlf_continued :
    ((parse "K(A\\\n)".toList none "K".toList).map Outline.forms = .ok [[.word "A".toList]] ∧
        (parse (crlf "K(A\\\n)".toList) none "K".toList).map Outline.forms =
          .ok [[.word "A\\".toList]]) ∧
      ((parse "K(A, \\\n B)".toList none "K".toList).map Outline.forms =
          .ok [[.word "A".toList, .word "B".toList]] ∧
        (parse (crlf "K(A, \\\n B)".toList) none "K".toList).toOption = none) := by
  refine ⟨⟨?_, ?_⟩, ?_, ?_⟩ <;> cbv

end Keymap
