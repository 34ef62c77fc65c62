import Keymap.Proofs.Form

/-!
# Continued lines

A text without its comments, and the lines that are continued in it. A backslash right before the
end of a line is no part of any word, so each such place adds a backslash to those that stand in the
words.

## Key results

- `ArgumentList.uncommented_append` — the characters of arguments outside comments
- `ArgumentList.Fit.joined_or` — arguments have as many backslashes outside comments as their words,
  unless a line is continued
-/

namespace Keymap

/-! ## Texts outside comments -/

/-- Where a place of a text is: outside comments, or in one of either kind. -/
inductive Region where
  | code
  | block
  | line

/-- The text with a space in the place of each comment, if it begins in a region. -/
def uncommented : Region → Text → Text
  | _, [] => []
  | .code, '/' :: '*' :: rest => ' ' :: uncommented .block rest
  | .code, '/' :: '/' :: rest => ' ' :: uncommented .line rest
  | .code, c :: rest => c :: uncommented .code rest
  | .block, '*' :: '/' :: rest => uncommented .code rest
  | .block, _ :: rest => uncommented .block rest
  | .line, '\n' :: rest => uncommented .code rest
  | .line, _ :: rest => uncommented .line rest

/-- A character that begins no comment stays. -/
theorem uncommented_cons {c : Char} {rest : Text}
    (h : c = '/' → rest.head? ≠ some '*' ∧ rest.head? ≠ some '/') :
    uncommented .code (c :: rest) = c :: uncommented .code rest := by
  rw [uncommented.eq_def]
  split <;> simp_all

/-- A character that is no slash stays. -/
theorem uncommented_cons_of_ne {c : Char} (hc : c ≠ '/') (rest : Text) :
    uncommented .code (c :: rest) = c :: uncommented .code rest :=
  uncommented_cons fun h => absurd h hc

/-- A character that ends no block comment is left out in one. -/
theorem uncommented_block_cons {c : Char} {rest : Text} (h : c = '*' → rest.head? ≠ some '/') :
    uncommented .block (c :: rest) = uncommented .block rest := by
  rw [uncommented]
  rintro more rfl rfl
  exact h rfl rfl

/-- A character but a newline is left out in a line comment. -/
theorem uncommented_line_cons {c : Char} (hc : c ≠ '\n') (rest : Text) :
    uncommented .line (c :: rest) = uncommented .line rest := by
  rw [uncommented]
  exact hc

/-- A block comment is left out. -/
theorem uncommented_block {body : Text} (rest : Text) (h : ¬ ['*', '/'] <:+: body ++ ['*']) :
    uncommented .block (body ++ '*' :: '/' :: rest) = uncommented .code rest := by
  induction body with
  | nil => rw [List.nil_append, uncommented]
  | cons c body ih =>
    have hbody : ¬ ['*', '/'] <:+: body ++ ['*'] := fun hwithin =>
      h (hwithin.trans (List.suffix_cons c _).isInfix)
    rw [List.cons_append, uncommented_block_cons, ih hbody]
    -- No end of a comment begins in the body.
    rintro rfl hhead
    cases body with
    | nil => exact nomatch hhead
    | cons d body =>
      obtain rfl := Option.some.inj hhead
      exact h ⟨[], body ++ ['*'], rfl⟩

/-- A line comment is left out. -/
theorem uncommented_line {body : Text} (rest : Text) (h : '\n' ∉ body) :
    uncommented .line (body ++ '\n' :: rest) = uncommented .code rest := by
  induction body with
  | nil => rw [List.nil_append, uncommented]
  | cons c body ih =>
    simp only [List.mem_cons, not_or] at h
    rw [List.cons_append, uncommented_line_cons (Ne.symm h.1), ih h.2]

/-! ## Backslashes before the end of a line -/

/-- A backslash stands at the end of a line of the text. -/
def Joined (text : Text) : Prop :=
  ['\\', '\n'] <:+: text

/-- A line of the text is continued outside comments. -/
def Continued (text : Text) : Prop :=
  Joined (uncommented .code text)

/-- What is joined stays so with any text around it. -/
theorem Joined.of_isInfix {a b : Text} (h : Joined a) (hwithin : a <:+: b) : Joined b :=
  List.IsInfix.trans h hwithin

theorem not_joined_of_not_mem {c : Char} (hc : c ∈ ['\\', '\n']) {a : Text} (h : c ∉ a) :
    ¬ Joined a := fun hjoined => h (hjoined.subset hc)

/-- Only a backslash joins a line at the head of a text. -/
theorem not_joined_cons {c : Char} {a : Text} (hc : c ≠ '\\') (ha : ¬ Joined a) :
    ¬ Joined (c :: a) := by
  rw [Joined, List.infix_cons_iff, not_or]
  exact ⟨fun hstart => hc (List.cons_prefix_cons.mp hstart).1.symm, ha⟩

/-- Two texts are joined nowhere if neither is, nor do they meet at a backslash and a newline. -/
theorem not_joined_append {a b : Text} (ha : ¬ Joined a) (hb : ¬ Joined b)
    (hmeet : a.getLast? = some '\\' → b.head? ≠ some '\n') : ¬ Joined (a ++ b) := by
  induction a with
  | nil => exact hb
  | cons c a ih =>
    rw [Joined, List.infix_cons_iff, not_or] at ha
    rw [List.cons_append, Joined, List.infix_cons_iff, not_or]
    refine ⟨fun hstart => ?_, ih ha.2 fun hlast => hmeet ?_⟩
    · -- A pair at the front lies within `a`, unless `a` is only the backslash.
      obtain ⟨rfl, hrest⟩ := List.cons_prefix_cons.mp hstart
      cases a with
      | nil =>
        obtain ⟨rest, hrest⟩ := hrest
        have hb : b = '\n' :: rest := hrest.symm
        exact hmeet rfl (by rw [hb]; rfl)
      | cons d a =>
        obtain ⟨rfl, -⟩ := List.cons_prefix_cons.mp hrest
        exact ha.1 ⟨a, rfl⟩
    · cases a with
      | nil => exact nomatch hlast
      | cons d a => rwa [List.getLast?_cons_cons]

/-! ## Trivia, blanks and words -/

/-- A delimiter is no other character. -/
theorem ne_of_isDelimiter {c d : Char} (hc : isDelimiter c = true)
    (hd : isDelimiter d = false) : c ≠ d := by
  rintro rfl
  exact Bool.false_ne_true (hd.symm.trans hc)

/-- A blank is no slash. -/
theorem ne_slash_of_isBlank {c : Char} (hc : isBlank c = true) : c ≠ '/' := by
  rintro rfl
  exact nomatch hc

/-- What stands outside comments in trivia stands before what follows them. -/
theorem Trivia.uncommented_append {a : Text} (h : Trivia a) (rest : Text) :
    uncommented .code (a ++ rest) = uncommented .code a ++ uncommented .code rest := by
  induction h with
  | nil => rfl
  | blank hc _ ih =>
    have hslash := ne_slash_of_isBlank hc
    simp only [List.cons_append, uncommented_cons_of_ne hslash, ih]
  | block hbody _ ih =>
    simp only [List.cons_append, List.append_assoc, uncommented, uncommented_block _ hbody, ih]
  | line hbody _ ih =>
    simp only [List.cons_append, List.append_assoc, uncommented, uncommented_line _ hbody, ih]
  | continued _ ih =>
    have hback : '\\' ≠ '/' := by decide
    have hnewline : '\n' ≠ '/' := by decide
    simp only [List.cons_append, uncommented_cons_of_ne hback, uncommented_cons_of_ne hnewline, ih]

/-- A backslash outside comments in trivia continues a line. -/
theorem Trivia.joined_of_mem {a : Text} (h : Trivia a) (hmem : '\\' ∈ uncommented .code a) :
    Joined a := by
  -- A comment is shown as one blank, so a backslash that is left is that of a continuation.
  induction h with
  | nil => exact nomatch hmem
  | @blank c a hc _ ih =>
    rw [uncommented_cons_of_ne (ne_slash_of_isBlank hc)] at hmem
    rcases List.mem_cons.mp hmem with rfl | hmem
    · exact nomatch hc
    · exact (ih hmem).of_isInfix (List.suffix_cons c a).isInfix
  | @block body a hbody _ ih =>
    rw [uncommented, uncommented_block a hbody] at hmem
    rcases List.mem_cons.mp hmem with hspace | hmem
    · exact nomatch hspace
    · exact (ih hmem).of_isInfix ⟨'/' :: '*' :: (body ++ ['*', '/']), [], by simp⟩
  | @line body a hbody _ ih =>
    rw [uncommented, uncommented_line a hbody] at hmem
    rcases List.mem_cons.mp hmem with hspace | hmem
    · exact nomatch hspace
    · exact (ih hmem).of_isInfix ⟨'/' :: '/' :: (body ++ ['\n']), [], by simp⟩
  | @continued a _ _ => exact ⟨[], a, rfl⟩

/-- A newline at the head of trivia outside comments is the first character. -/
theorem Trivia.head?_of_uncommented {a : Text} (h : Trivia a)
    (hhead : (uncommented .code a).head? = some '\n') : a.head? = some '\n' := by
  cases h with
  | nil => exact nomatch hhead
  | blank hc _ => rwa [uncommented_cons_of_ne (ne_slash_of_isBlank hc)] at hhead
  | block _ _ | line _ _ => simp [uncommented] at hhead
  | continued _ => simp [uncommented_cons_of_ne] at hhead

/-- There is no comment in blanks. -/
theorem uncommented_of_allBlank {a : Text} (h : a.AllBlank) : uncommented .code a = a := by
  induction a with
  | nil => rfl
  | cons c a ih =>
    obtain ⟨hc, ha⟩ := (Text.allBlank_cons ..).mp h
    rw [uncommented_cons_of_ne (ne_slash_of_isBlank hc), ih ha]

/-- A word holds no newline. -/
theorem Text.newline_not_mem_of_word {w after : Text} (h : word (w ++ after) = w) : '\n' ∉ w := by
  intro hmem
  rw [← h] at hmem
  exact nomatch (of_mem_word hmem).1

/-- A word stays where comments are left out. -/
theorem uncommented_word {w after : Text} (h : Text.word (w ++ after) = w) :
    uncommented .code (w ++ after) = w ++ uncommented .code after := by
  induction w with
  | nil => rfl
  | cons c w ih =>
    obtain ⟨-, -, hpair, hw⟩ := (Text.word_cons_append_eq_iff ..).mp h
    rw [List.cons_append] at hpair ⊢
    rw [uncommented_cons, ih hw, List.cons_append]
    rintro rfl
    cases hrest : w ++ after with
    | nil => exact ⟨nofun, nofun⟩
    | cons d rest =>
      rw [hrest] at hpair
      constructor <;> rintro hd <;> obtain rfl := Option.some.inj hd <;> exact nomatch hpair

/-! ## Arguments -/

mutual

/-- The characters of a token outside comments. -/
def Token.bare : Token → Text
  | .word chars => chars
  | .call name blanks args => name ++ blanks ++ '(' :: ArgumentList.bare args

/-- The characters of arguments outside comments. -/
def ArgumentList.bare : ArgumentList → Text
  | [] => []
  | ⟨before, token, after⟩ :: rest =>
    uncommented .code before ++ token.bare ++ uncommented .code after ++
      closer rest :: ArgumentList.bare rest

end

mutual

/-- The characters of a token outside comments stand before what follows it. -/
theorem Token.uncommented_append {token : Token} {after : Text} (h : token.Fits after) :
    uncommented .code (token.text ++ after) = token.bare ++ uncommented .code after := by
  match token with
  | .word chars =>
    rw [Token.Fits] at h
    rw [Token.text_word, Token.bare, uncommented_word h.2]
  | .call name blanks args =>
    rw [Token.Fits] at h
    obtain ⟨-, hname, hblanks, -, hargs⟩ := h
    have hopen : Text.word (name ++ (blanks ++ '(' :: (ArgumentList.text args ++ after))) = name :=
      (Text.word_append_trivia name _ (.of_allBlank hblanks) rfl).mpr hname
    rw [Token.text_call, Token.bare]
    simp only [List.append_assoc, List.cons_append]
    rw [uncommented_word hopen, (Trivia.of_allBlank hblanks).uncommented_append,
      uncommented_cons_of_ne (by decide), ArgumentList.uncommented_append hargs,
      uncommented_of_allBlank hblanks]

/-- The characters of arguments outside comments stand before what follows them. -/
theorem ArgumentList.uncommented_append {args : ArgumentList} {after : Text} (h : args.Fit) :
    uncommented .code (args.text ++ after) = args.bare ++ uncommented .code after := by
  match args with
  | [] => rfl
  | ⟨before, token, behind⟩ :: rest =>
    rw [ArgumentList.Fit] at h
    obtain ⟨hbefore, htoken, hbehind, hrest⟩ := h
    have htoken' := (Token.fits_append (ArgumentList.text rest ++ after) hbehind
      (isDelimiter_closer rest)).mpr htoken
    have hslash : closer rest ≠ '/' := ne_of_isDelimiter (isDelimiter_closer rest) rfl
    rw [ArgumentList.text, ArgumentList.bare]
    simp only [List.append_assoc, List.cons_append]
    rw [hbefore.uncommented_append, Token.uncommented_append htoken', hbehind.uncommented_append,
      uncommented_cons_of_ne hslash, ArgumentList.uncommented_append hrest]

end

/-- The characters of arguments outside comments. -/
theorem ArgumentList.uncommented_text {args : ArgumentList} (h : args.Fit) :
    uncommented .code args.text = args.bare := by
  have hbare := @ArgumentList.uncommented_append _ [] h
  rwa [List.append_nil, uncommented, List.append_nil] at hbare

/-! ## Counting backslashes -/

/-- Arguments end with their closing parenthesis, also where comments are left out. -/
theorem ArgumentList.getLast?_bare {args : ArgumentList} (hne : args ≠ []) :
    args.bare.getLast? = some ')' := by
  induction args with
  | nil => exact absurd rfl hne
  | cons arg rest ih =>
    obtain ⟨before, token, after⟩ := arg
    rw [ArgumentList.bare, List.getLast?_append, List.getLast?_cons]
    cases rest with
    | nil => rfl
    | cons next rest =>
      rw [ih (List.cons_ne_nil next rest)]
      rfl

variable [Machine]

omit [Machine] in
/-- A token that ends with a backslash does not stand before a newline. -/
theorem Token.Fits.not_meets {token : Token} {after : Text} (h : token.Fits after)
    (hafter : Trivia after) (hlast : token.bare.getLast? = some '\\') :
    (uncommented .code after).head? ≠ some '\n' := by
  intro hhead
  match token with
  | .word chars =>
    rw [Token.Fits] at h
    rw [Token.bare] at hlast
    exact nomatch Text.isPair_of_word h.2 hlast (hafter.head?_of_uncommented hhead)
  | .call name blanks args =>
    rw [Token.Fits] at h
    rw [Token.bare, List.getLast?_append, List.getLast?_cons,
      ArgumentList.getLast?_bare h.2.2.2.1] at hlast
    exact nomatch hlast

omit [Machine] in
mutual

/-- Either a line of a token is continued, and the token has more backslashes outside comments than
its form, or it has the same. -/
theorem Token.Fits.joined_or {token : Token} {after : Text} (h : token.Fits after) (pos : Nat) :
    Joined token.text ∧ (token.key pos).form.chars.count '\\' < token.bare.count '\\' ∨
      ¬ Joined token.bare ∧
        token.bare.count '\\' = (token.key pos).form.chars.count '\\' := by
  match token with
  | .word chars =>
    rw [Token.Fits] at h
    rw [Token.bare]
    exact .inr ⟨not_joined_of_not_mem (by simp) (Text.newline_not_mem_of_word h.2), rfl⟩
  | .call name blanks args =>
    rw [Token.Fits] at h
    obtain ⟨-, hname, hblanks, -, hargs⟩ := h
    have hback : '\\' ∉ blanks := fun hmem => nomatch hblanks _ hmem
    have hnone : blanks.count '\\' = 0 := List.count_eq_zero_of_not_mem hback
    rw [Token.text_call, Token.bare, Token.key, Node.form, Form.chars]
    rcases hargs.joined_or (pos + name.length + blanks.length + 1) with
      ⟨hjoined, hlt⟩ | ⟨hjoined, heq⟩
    · refine .inl ⟨hjoined.of_isInfix ⟨name ++ blanks ++ ['('], [], by simp⟩, ?_⟩
      simp only [List.count_append, List.count_cons]
      omega
    · refine .inr ⟨?_, ?_⟩
      · -- The name holds no newline, and the blanks no backslash.
        have hwithin : ¬ Joined (name ++ blanks) :=
          not_joined_append (not_joined_of_not_mem (by simp) (Text.newline_not_mem_of_word hname))
            (not_joined_of_not_mem (by simp) hback) fun hlast hhead =>
              nomatch Text.isPair_of_word hname hlast hhead
        exact not_joined_append hwithin (not_joined_cons (by decide) hjoined) nofun
      · simp [List.count_append, hnone, heq]

/-- Either a line of the arguments is continued, and they have more backslashes outside comments
than their forms, or they have the same. -/
theorem ArgumentList.Fit.joined_or {args : ArgumentList} (h : args.Fit) (pos : Nat) :
    Joined args.text ∧
        (Form.charsAll (Node.formAll (args.keys pos))).count '\\' < args.bare.count '\\' ∨
      ¬ Joined args.bare ∧
        args.bare.count '\\' = (Form.charsAll (Node.formAll (args.keys pos))).count '\\' := by
  match args with
  | [] => exact .inr ⟨by simp [Joined, ArgumentList.bare], rfl⟩
  | ⟨before, token, behind⟩ :: rest =>
    rw [ArgumentList.Fit] at h
    obtain ⟨hbefore, htoken, hbehind, hrest⟩ := h
    have hcloser : closer rest ≠ '\\' := ne_of_isDelimiter (isDelimiter_closer rest) rfl
    have htoken' := htoken.joined_or (pos + before.length)
    have hrest' := hrest.joined_or
      (pos + before.length + token.text.length + behind.length + 1)
    rw [ArgumentList.text, ArgumentList.bare, ArgumentList.keys, Node.formAll, Form.charsAll]
    simp only [List.count_append, List.count_cons_of_ne hcloser]
    -- A backslash among the trivia of the first argument belongs to a continuation.
    by_cases hb : '\\' ∈ uncommented .code before
    · have hcount := List.count_pos_iff.mpr hb
      refine .inl ⟨(hbefore.joined_of_mem hb).of_isInfix ⟨[], token.text ++ behind ++ closer rest ::
        ArgumentList.text rest, by simp⟩, ?_⟩
      omega
    by_cases ha : '\\' ∈ uncommented .code behind
    · have hcount := List.count_pos_iff.mpr ha
      refine .inl ⟨(hbehind.joined_of_mem ha).of_isInfix ⟨before ++ token.text, closer rest ::
        ArgumentList.text rest, by simp⟩, ?_⟩
      omega
    have hb' := List.count_eq_zero_of_not_mem hb
    have ha' := List.count_eq_zero_of_not_mem ha
    -- Otherwise either the token or the later arguments have one more than they show.
    rcases htoken' with ⟨hjoined, hlt⟩ | ⟨hjoined, heq⟩
    · refine .inl ⟨hjoined.of_isInfix ⟨before, behind ++ closer rest :: ArgumentList.text rest,
        by simp⟩, ?_⟩
      omega
    rcases hrest' with ⟨hjoined', hlt⟩ | ⟨hjoined', heq'⟩
    · refine .inl ⟨hjoined'.of_isInfix ⟨before ++ token.text ++ behind ++ [closer rest], [],
        by simp⟩, ?_⟩
      omega
    refine .inr ⟨?_, by omega⟩
    -- No two of the parts meet at a backslash and a newline.
    have hnewline : closer rest ≠ '\n' := ne_of_isDelimiter (isDelimiter_closer rest) rfl
    have hfirst : ¬ Joined (uncommented .code before ++ token.bare) :=
      not_joined_append (not_joined_of_not_mem (by simp) hb) hjoined fun hlast =>
        absurd (List.mem_of_getLast? hlast) hb
    refine not_joined_append (not_joined_append hfirst (not_joined_of_not_mem (by simp) ha) ?_)
      (not_joined_cons hcloser hjoined') fun _ hhead => hnewline (Option.some.inj hhead)
    intro hlast
    rw [List.getLast?_append, Option.or_eq_some_iff] at hlast
    rcases hlast with hlast | ⟨-, hlast⟩
    · exact htoken.not_meets hbehind hlast
    · exact absurd (List.mem_of_getLast? hlast) hb

end

end Keymap
