import Keymap.Proofs.Grammar
import Keymap.Proofs.Search

/-!
# Balanced text

Which closing parenthesis belongs to an opening one, said of the characters alone: between the two
the text is balanced, where parentheses inside comments do not count.

## Key results

- `Balanced.eq_of_append` — an opening parenthesis has at most one partner
- `Trivia.eq_of_append` — where trivia end before a delimiter is determined
- `ArgumentList.balanced_text` — arguments are balanced up to their closing parenthesis
-/

namespace Keymap

/-- Comments: from a slash and a star through the next star and slash, or from two slashes through
the end of the line. -/
inductive Comment : Text → Prop where
  | block {body : Text} : ¬ ['*', '/'] <:+: body ++ ['*'] →
      Comment ('/' :: '*' :: (body ++ ['*', '/']))
  | line {body : Text} : '\n' ∉ body → Comment ('/' :: '/' :: (body ++ ['\n']))

/-- What may part a word from what follows it: a comment, or a backslash and a newline that continue
the line. -/
def Skipped (piece : Text) : Prop :=
  Comment piece ∨ piece = ['\\', '\n']

/-- Text in which every parenthesis that is not part of a comment has its partner. -/
inductive Balanced : Text → Prop where
  | nil : Balanced []
  | char {c : Char} {rest : Text} : c ≠ '(' → c ≠ ')' →
      (c = '/' → rest.head? ≠ some '*' ∧ rest.head? ≠ some '/') → Balanced rest →
      Balanced (c :: rest)
  | comment {comment rest : Text} : Comment comment → Balanced rest → Balanced (comment ++ rest)
  | nest {inner rest : Text} : Balanced inner → Balanced rest →
      Balanced ('(' :: (inner ++ ')' :: rest))

/-! ## Partners -/

namespace Comment

/-- A comment begins with a slash, and a star or another slash. -/
theorem exists_cons {a : Text} (h : Comment a) :
    ∃ c rest, (c = '*' ∨ c = '/') ∧ a = '/' :: c :: rest := by
  cases h with
  | block _ => exact ⟨_, _, .inl rfl, rfl⟩
  | line _ => exact ⟨_, _, .inr rfl, rfl⟩

/-- Where a comment begins, its end is determined. -/
theorem eq_of_append {a b x y : Text} (ha : Comment a) (hb : Comment b)
    (heq : a ++ x = b ++ y) : a = b := by
  have hline {body : Text} (h : '\n' ∉ body) : ¬ [] ++ ['\n'] <:+: body ++ [] := by
    rw [List.append_nil]
    exact fun hwithin => h (hwithin.subset (by simp))
  cases ha with
  | block ha =>
    cases hb with
    | block hb =>
      have hbody := eq_of_leftmost ['*'] ha hb
        (List.cons.inj (List.cons.inj heq).2).2
      rw [hbody]
    | line _ => simp at heq
  | line ha =>
    cases hb with
    | block _ => simp at heq
    | line hb =>
      have hbody := eq_of_leftmost [] (hline ha) (hline hb)
        (List.cons.inj (List.cons.inj heq).2).2
      rw [hbody]

end Comment

namespace Balanced

/-- No comment begins at a character that stands for itself. -/
private theorem not_comment_char {c : Char} {comment rest x y : Text} (hcomment : Comment comment)
    (hchar : c = '/' → rest.head? ≠ some '*' ∧ rest.head? ≠ some '/') :
    comment ++ y ≠ c :: (rest ++ ')' :: x) := by
  intro heq
  obtain ⟨d, comment, hd, rfl⟩ := hcomment.exists_cons
  obtain ⟨rfl, htail⟩ := List.cons.inj heq
  obtain ⟨hstar, hslash⟩ := hchar rfl
  cases rest with
  | nil =>
    obtain ⟨rfl, -⟩ := List.cons.inj htail
    simp at hd
  | cons e rest =>
    obtain ⟨rfl, -⟩ := List.cons.inj htail
    rcases hd with rfl | rfl
    · exact hstar rfl
    · exact hslash rfl

/-- An opening parenthesis has at most one partner. -/
theorem eq_of_append {a b x y : Text} (ha : Balanced a) (hb : Balanced b)
    (heq : a ++ ')' :: x = b ++ ')' :: y) : a = b := by
  induction ha generalizing b x y with
  | nil =>
    cases hb with
    | nil => rfl
    | char _ hclose _ _ => exact absurd (List.cons.inj heq).1.symm hclose
    | comment hcomment _ =>
      obtain ⟨d, comment, -, rfl⟩ := hcomment.exists_cons
      simp at heq
    | nest _ _ => simp at heq
  | @char c rest hopen hclose hcomment _ ih =>
    cases hb with
    | nil => exact absurd (List.cons.inj heq).1 hclose
    | char _ _ _ hrest' =>
      obtain ⟨rfl, htail⟩ := List.cons.inj heq
      rw [ih hrest' htail]
    | comment hcomment' _ =>
      rw [List.append_assoc] at heq
      exact absurd heq.symm (not_comment_char hcomment' hcomment)
    | nest _ _ => exact absurd (List.cons.inj heq).1 hopen
  | @comment comment rest hcomment _ ih =>
    rw [List.append_assoc] at heq
    cases hb with
    | nil =>
      obtain ⟨d, comment, -, rfl⟩ := hcomment.exists_cons
      simp at heq
    | char _ _ hcomment' _ => exact absurd heq (not_comment_char hcomment hcomment')
    | comment hcomment' hrest' =>
      rw [List.append_assoc] at heq
      obtain rfl := hcomment.eq_of_append hcomment' heq
      rw [ih hrest' (List.append_cancel_left heq)]
    | nest _ _ =>
      obtain ⟨d, comment, -, rfl⟩ := hcomment.exists_cons
      simp at heq
  | @nest inner rest _ _ ihinner ihrest =>
    cases hb with
    | nil => simp at heq
    | char hopen _ _ _ => exact absurd (List.cons.inj heq).1.symm hopen
    | comment hcomment _ =>
      obtain ⟨d, comment, -, rfl⟩ := hcomment.exists_cons
      simp at heq
    | nest hinner' hrest' =>
      -- The inner texts end at the same place, and so do the outer ones.
      simp only [List.cons_append, List.append_assoc, List.cons.injEq, true_and] at heq
      obtain rfl := ihinner hinner' heq
      have htail := (List.cons.inj (List.append_cancel_left heq)).2
      rw [ihrest hrest' htail]

/-- A character that is no parenthesis and begins no comment. -/
theorem cons {c : Char} {rest : Text} (hc : c ∉ ['(', ')', '/']) (hrest : Balanced rest) :
    Balanced (c :: rest) := by
  simp only [List.mem_cons, List.not_mem_nil, or_false, not_or] at hc
  exact .char hc.1 hc.2.1 (fun h => absurd h hc.2.2) hrest

/-- A word before balanced text is balanced with it. -/
theorem word_append {w rest : Text} (hword : Text.word (w ++ rest) = w) (hrest : Balanced rest) :
    Balanced (w ++ rest) := by
  induction w with
  | nil => exact hrest
  | cons c w ih =>
    obtain ⟨-, hdelimiter, hpair, hw⟩ := (Text.word_cons_append_eq_iff ..).mp hword
    rw [List.cons_append] at hpair ⊢
    -- No character of a word is a parenthesis, or begins a comment.
    apply Balanced.char
    · rintro rfl
      exact nomatch hdelimiter
    · rintro rfl
      exact nomatch hdelimiter
    · rintro rfl
      cases hhead : w ++ rest with
      | nil => exact ⟨nofun, nofun⟩
      | cons d after =>
        rw [hhead] at hpair
        constructor <;> intro hd <;> obtain rfl := Option.some.inj hd <;> exact nomatch hpair
    · exact ih hw

/-- A plain text before balanced text is balanced with it, unless the two make a pair where they
meet. -/
theorem plain_append {a rest : Text} (h : a.Plain)
    (hmeets : ∀ c ∈ a.getLast?, ∀ d ∈ rest.head?, isPair c d = false) (hrest : Balanced rest) :
    Balanced (a ++ rest) := by
  induction a with
  | nil => exact hrest
  | cons c more ih =>
    have hdelimiter := h.delimiter c List.mem_cons_self
    have hmore : Balanced (more ++ rest) := by
      refine ih (h.of_isInfix (List.suffix_cons c more).isInfix) fun d hd => hmeets d ?_
      cases more with
      | nil => exact nomatch hd
      | cons e more => simpa using hd
    -- The first character is no parenthesis, and begins no comment with the next one.
    refine .char ?_ ?_ ?_ hmore
    · rintro rfl
      exact nomatch hdelimiter
    · rintro rfl
      exact nomatch hdelimiter
    · rintro rfl
      have hnext {d : Char} (hd : (more ++ rest).head? = some d) : isPair '/' d = false := by
        cases more with
        | nil => exact hmeets '/' rfl d hd
        | cons e more =>
          obtain rfl : e = d := by simpa using hd
          exact h.pair '/' e ⟨[], more, rfl⟩
      constructor <;> intro hd <;> exact nomatch hnext hd

/-- A plain text is balanced. -/
theorem of_plain {a : Text} (h : a.Plain) : Balanced a := by
  simpa using plain_append h (by simp) .nil

end Balanced

/-! ## Trivia, tokens and arguments -/

/-- What may part a word from what follows it is trivia. -/
theorem Skipped.trivia {piece : Text} (h : Skipped piece) : Trivia piece := by
  rcases h with hcomment | rfl
  · cases hcomment with
    | block hbody => exact .block hbody .nil
    | line hbody => exact .line hbody .nil
  · exact .continued .nil

/-- Trivia before balanced text are balanced with it. -/
theorem Trivia.balanced_append {a rest : Text} (ha : Trivia a) (hrest : Balanced rest) :
    Balanced (a ++ rest) := by
  induction ha with
  | nil => exact hrest
  | @blank c _ hc _ ih =>
    apply Balanced.cons _ ih
    intro hmem
    simp only [List.mem_cons, List.not_mem_nil, or_false] at hmem
    rcases hmem with rfl | rfl | rfl <;> exact nomatch hc
  | block hbody _ ih => simpa using Balanced.comment (.block hbody) ih
  | line hbody _ ih => simpa using Balanced.comment (.line hbody) ih
  | continued _ ih => exact .cons (by decide) (.cons (by decide) ih)

/-- Trivia before a delimiter are determined. -/
theorem Trivia.eq_of_append {a b x y : Text} {d e : Char} (ha : Trivia a) (hb : Trivia b)
    (hd : isDelimiter d = true) (he : isDelimiter e = true)
    (heq : a ++ d :: x = b ++ e :: y) : a = b := by
  have hblank {c : Char} (hc : isBlank c = true) : isDelimiter c = false :=
    isDelimiter_of_isBlank hc
  have hslash : isDelimiter '/' = false ∧ isBlank '/' = false := ⟨rfl, rfl⟩
  have hbackslash : isDelimiter '\\' = false ∧ isBlank '\\' = false := ⟨rfl, rfl⟩
  induction ha generalizing b <;> cases hb
  case nil.nil => rfl
  case blank.blank ih _ _ _ hrest =>
    obtain ⟨rfl, htail⟩ := List.cons.inj heq
    rw [ih hrest htail]
  case block.block hbody _ ih _ _ hbody' hrest =>
    have hcomment := Comment.eq_of_append (.block hbody) (.block hbody') (by simpa using heq)
    obtain rfl : _ = _ := by simpa using hcomment
    rw [ih hrest (by simpa using heq)]
  case line.line hbody _ ih _ _ hbody' hrest =>
    have hcomment := Comment.eq_of_append (.line hbody) (.line hbody') (by simpa using heq)
    obtain rfl : _ = _ := by simpa using hcomment
    rw [ih hrest (by simpa using heq)]
  case continued.continued ih _ hrest =>
    rw [ih hrest (List.cons.inj (List.cons.inj heq).2).2]
  all_goals
    -- The pieces that the two begin with are of different kinds.
    simp only [List.nil_append, List.cons_append, List.cons.injEq] at heq
    grind

mutual

/-- A token before balanced text that it can stand before is balanced with it. -/
theorem Token.balanced_append {token : Token} {rest : Text} (hfits : token.Fits rest)
    (hrest : Balanced rest) : Balanced (token.text ++ rest) := by
  match token with
  | .word chars =>
    rw [Token.Fits] at hfits
    rw [Token.text_word]
    exact .word_append hfits.2 hrest
  | .call name blanks args =>
    rw [Token.Fits] at hfits
    obtain ⟨-, hword, hblanks, hne, hargs⟩ := hfits
    obtain ⟨inner, htext, hinner⟩ := ArgumentList.balanced_text hargs hne
    have hcall := (Trivia.of_allBlank hblanks).balanced_append (.nest hinner hrest)
    -- Behind the name, the blanks and the parenthesis do not belong to a word.
    have hopen : Text.word (name ++ (blanks ++ '(' :: (inner ++ ')' :: rest))) = name :=
      (Text.word_append_trivia name _ (.of_allBlank hblanks) rfl).mpr hword
    have hsplit : (Token.call name blanks args).text ++ rest =
        name ++ (blanks ++ '(' :: (inner ++ ')' :: rest)) := by
      rw [Token.text_call, htext]
      simp
    rw [hsplit]
    exact .word_append hopen hcall

/-- Arguments are balanced up to their closing parenthesis. -/
theorem ArgumentList.balanced_text {args : ArgumentList} (hfit : args.Fit) (hne : args ≠ []) :
    ∃ inner, args.text = inner ++ [')'] ∧ Balanced inner := by
  match args with
  | ⟨before, token, after⟩ :: rest =>
    rw [ArgumentList.Fit] at hfit
    obtain ⟨hbefore, htoken, hafter, hrest⟩ := hfit
    match rest with
    | [] =>
      refine ⟨before ++ (token.text ++ after), by rw [ArgumentList.text]; simp [closer], ?_⟩
      have hbalanced : Balanced after := by simpa using hafter.balanced_append .nil
      exact hbefore.balanced_append (Token.balanced_append htoken hbalanced)
    | next :: rest =>
      obtain ⟨inner, htext, hinner⟩ := ArgumentList.balanced_text hrest (by simp)
      refine ⟨before ++ (token.text ++ (after ++ ',' :: inner)), ?_, ?_⟩
      · rw [ArgumentList.text, htext]
        simp [closer]
      · -- What is behind the comma is balanced by the recursion.
        have hcomma : Balanced (',' :: inner) := .cons (by decide) hinner
        exact hbefore.balanced_append (Token.balanced_append
          ((Token.fits_append inner hafter rfl).mpr htoken) (hafter.balanced_append hcomma))

end

/-- Arguments with a comma behind each of them are balanced with balanced text behind them. -/
theorem ArgumentList.balanced_leading {args : ArgumentList} {rest : Text} (hfit : args.Fit)
    (hrest : Balanced rest) : Balanced (args.leading ++ rest) := by
  induction args with
  | nil => exact hrest
  | cons arg later ih =>
    obtain ⟨⟨hbefore, htoken, hafter⟩, hlater⟩ := (ArgumentList.fit_cons ..).mp hfit
    have hcomma : Balanced (',' :: (ArgumentList.leading later ++ rest)) :=
      .cons (by decide) (ih hlater)
    have harg := hbefore.balanced_append (Token.balanced_append
      ((Token.fits_append _ hafter rfl).mpr htoken) (hafter.balanced_append hcomma))
    simpa [Argument.text] using harg

end Keymap
