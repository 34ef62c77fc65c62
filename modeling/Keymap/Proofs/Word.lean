import Keymap.Layer.Descent

/-!
# Words and trivia

What may stand between two separators of a source text: words, and the trivia around them. A word
goes on as long as it can, up to a blank, a delimiter, or a pair of characters that begins a
comment or continues the line. Both notions are defined on the text alone, without a machine that
reads it.

## Key results

- `Text.word_cons_append_eq_iff` — when a text is the longest word at the head of a longer one
- `Text.word_append_trivia` — trivia and a delimiter end a word wherever they stand
- `Trivia.append` — trivia after trivia are trivia
-/

namespace Keymap

/-! ## Pairs and delimiters -/

/-- Whether a character delimits keys: a comma or a parenthesis. -/
def isDelimiter (c : Char) : Bool :=
  c == ',' || c == '(' || c == ')'

/-- A pair never ends with a delimiter. -/
theorem isPair_delimiter {c d : Char} (hd : isDelimiter d = true) : isPair c d = false := by
  simp only [isDelimiter, Bool.or_eq_true, beq_iff_eq] at hd
  rcases hd with (rfl | rfl) | rfl <;> simp [isPair]

/-- The first character of a pair is no delimiter. -/
theorem isDelimiter_of_isPair {c d : Char} (h : isPair c d = true) : isDelimiter c = false := by
  simp only [isPair, Bool.or_eq_true, Bool.and_eq_true, beq_iff_eq] at h
  rcases h with ⟨rfl, _⟩ | ⟨rfl, _⟩ <;> decide

/-- A blank is no delimiter. -/
theorem isDelimiter_of_isBlank {c : Char} (h : isBlank c = true) : isDelimiter c = false := by
  rw [← Bool.not_eq_true]
  intro hd
  simp only [isDelimiter, Bool.or_eq_true, beq_iff_eq] at hd
  rcases hd with (rfl | rfl) | rfl <;> exact absurd h (by decide)

namespace Text

/-- Whether a pair stands at the head of a text. -/
def startsPair : Text → Bool
  | c :: d :: _ => isPair c d
  | _ => false

/-- The longest word at the head of a text. It ends before the first blank, delimiter or pair. -/
def word : Text → Text
  | [] => []
  | c :: rest =>
    if isBlank c || isDelimiter c || startsPair (c :: rest) then [] else c :: word rest

/-- Whether all characters of a text are blank. -/
def AllBlank (text : Text) : Prop :=
  ∀ c ∈ text, isBlank c = true

@[simp] theorem allBlank_nil : AllBlank [] := fun _ h => nomatch h

@[simp] theorem allBlank_cons (c : Char) (text : Text) :
    AllBlank (c :: text) ↔ isBlank c = true ∧ AllBlank text := by
  simp [AllBlank]

@[simp] theorem allBlank_append (a b : Text) :
    AllBlank (a ++ b) ↔ AllBlank a ∧ AllBlank b := by
  simp only [AllBlank, List.mem_append]
  exact ⟨fun h => ⟨fun c hc => h c (.inl hc), fun c hc => h c (.inr hc)⟩,
    fun h c hc => hc.elim (h.1 c) (h.2 c)⟩

/-! ## Words -/

@[simp] theorem word_nil : word [] = [] := rfl

/-- A blank begins no word. -/
theorem word_blank {c : Char} (rest : Text) (hc : isBlank c = true) : word (c :: rest) = [] := by
  simp [word, hc]

/-- A delimiter begins no word. -/
theorem word_delimiter {c : Char} (rest : Text) (hc : isDelimiter c = true) :
    word (c :: rest) = [] := by
  simp [word, hc]

/-- A pair begins no word. -/
theorem word_pair {c d : Char} (rest : Text) (h : isPair c d = true) :
    word (c :: d :: rest) = [] := by
  simp [word, startsPair, h]

/-- Whether a text is the longest word at the head of a longer one is decided character by
character. -/
theorem word_cons_append_eq_iff (c : Char) (w after : Text) :
    word (c :: w ++ after) = c :: w ↔
      isBlank c = false ∧ isDelimiter c = false ∧ startsPair (c :: w ++ after) = false ∧
        word (w ++ after) = w := by
  rw [List.cons_append, word]
  split <;> rename_i h
  · simp only [reduceCtorEq, false_iff]
    simp only [Bool.or_eq_true] at h
    intro hparts
    obtain ⟨hblank, hdelimiter, hpair, -⟩ := hparts
    simp [hblank, hdelimiter, hpair] at h
  · simp only [Bool.or_eq_true, not_or, Bool.not_eq_true] at h
    simp [h]

/-- The characters of a word are neither blank nor delimiters. -/
theorem of_mem_word {text : Text} {c : Char} (hc : c ∈ word text) :
    isBlank c = false ∧ isDelimiter c = false := by
  induction text with
  | nil => exact nomatch hc
  | cons d rest ih =>
    rw [word] at hc
    split at hc
    · exact nomatch hc
    · rename_i h
      simp only [Bool.or_eq_true, not_or, Bool.not_eq_true] at h
      cases hc with
      | head => exact h.1
      | tail _ hc => exact ih hc

/-- A word has no blanks. -/
theorem hasBlank_of_word_append {w after : Text} (h : word (w ++ after) = w) :
    w.hasBlank = false := by
  simp only [hasBlank, List.any_eq_false, Bool.not_eq_true]
  intro c hc
  rw [← h] at hc
  exact (of_mem_word hc).1

end Text

/-! ## Trivia -/

/-- Blanks, comments and continued lines, in any number and order. A block comment goes up to the
first end of a comment that lies after its two opening characters, and a line comment through the
end of the line. -/
inductive Trivia : Text → Prop where
  | nil : Trivia []
  | blank {c : Char} {rest : Text} : isBlank c = true → Trivia rest → Trivia (c :: rest)
  | block {body rest : Text} : ¬ ['*', '/'] <:+: body ++ ['*'] → Trivia rest →
      Trivia ('/' :: '*' :: (body ++ '*' :: '/' :: rest))
  | line {body rest : Text} : '\n' ∉ body → Trivia rest →
      Trivia ('/' :: '/' :: (body ++ '\n' :: rest))
  | continued {rest : Text} : Trivia rest → Trivia ('\\' :: '\n' :: rest)

namespace Trivia

/-- The pairs that come about when trivia follow a character. -/
theorem eq_of_isPair {a : Text} (h : Trivia a) {c d : Char} (hd : d ∈ a.head?)
    (hpair : isPair c d = true) : c = '/' ∧ d = '/' ∨ c = '\\' ∧ d = '\n' := by
  simp only [isPair, Bool.or_eq_true, Bool.and_eq_true, beq_iff_eq] at hpair
  rcases hpair with ⟨rfl, rfl | rfl⟩ | ⟨rfl, rfl⟩
  · -- Trivia do not begin with a star.
    cases h with
    | nil => exact nomatch hd
    | blank hblank _ =>
      obtain rfl := Option.some.inj hd
      exact nomatch hblank
    | block _ _ | line _ _ | continued _ => exact absurd (Option.some.inj hd) (by decide)
  · exact .inl ⟨rfl, rfl⟩
  · exact .inr ⟨rfl, rfl⟩

/-- Trivia after trivia are trivia. -/
theorem append {a b : Text} (ha : Trivia a) (hb : Trivia b) : Trivia (a ++ b) := by
  induction ha with
  | nil => exact hb
  | blank hc _ ih => exact .blank hc ih
  | block hbody _ ih => simpa using Trivia.block hbody ih
  | line hbody _ ih => simpa using Trivia.line hbody ih
  | continued _ ih => exact .continued ih

/-- Blanks are trivia. -/
theorem of_allBlank {a : Text} (h : a.AllBlank) : Trivia a := by
  induction a with
  | nil => exact .nil
  | cons c rest ih => exact .blank (h c List.mem_cons_self) (ih ((Text.allBlank_cons ..).mp h).2)

/-- A word does not begin with trivia. -/
theorem word_append {a rest : Text} (ha : Trivia a) (hrest : Text.word rest = []) :
    Text.word (a ++ rest) = [] := by
  cases ha with
  | nil => exact hrest
  | blank hc _ => exact Text.word_blank _ hc
  | block _ _ => exact Text.word_pair _ (by decide)
  | line _ _ => exact Text.word_pair _ (by decide)
  | continued _ => exact Text.word_pair _ (by decide)

end Trivia

namespace Text

/-- A pair stands at the head of a nonempty text independently of a delimiter that follows. -/
private theorem startsPair_append_delimiter (c : Char) (text rest : Text) {d : Char}
    (hd : isDelimiter d = true) :
    startsPair (c :: text ++ d :: rest) = startsPair (c :: text) := by
  cases text with
  | nil => exact isPair_delimiter hd
  | cons e text => rfl

/-- Trivia and a delimiter end a word, so that what comes after them does not matter for it. -/
theorem word_append_trivia {after : Text} (w rest : Text) {d : Char} (hafter : Trivia after)
    (hd : isDelimiter d = true) :
    word (w ++ (after ++ d :: rest)) = w ↔ word (w ++ after) = w := by
  induction w with
  | nil =>
    have hlong : word (after ++ d :: rest) = [] := hafter.word_append (word_delimiter rest hd)
    have hshort : word after = [] := by simpa using hafter.word_append word_nil
    simp [hlong, hshort]
  | cons c w ih =>
    have hpair : startsPair (c :: w ++ (after ++ d :: rest)) = startsPair (c :: w ++ after) := by
      simpa using startsPair_append_delimiter c (w ++ after) rest hd
    rw [word_cons_append_eq_iff, word_cons_append_eq_iff, ih, hpair]

/-- The end of a word makes no pair with what follows the word. -/
theorem isPair_of_word {w after : Text} (h : word (w ++ after) = w) {c d : Char}
    (hc : w.getLast? = some c) (hd : after.head? = some d) : isPair c d = false := by
  induction w with
  | nil => exact nomatch hc
  | cons e w ih =>
    obtain ⟨-, -, hpair, hw⟩ := (word_cons_append_eq_iff ..).mp h
    cases w with
    | cons f w => exact ih hw (by rwa [List.getLast?_cons_cons] at hc)
    | nil =>
      obtain rfl := Option.some.inj hc
      obtain ⟨rest, rfl⟩ := List.head?_eq_some_iff.mp hd
      exact hpair

/-- A word stays the longest one before any other text that no word goes on with, and that its end
makes no pair with. -/
theorem word_append_of_word {w after after' : Text} (h : word (w ++ after) = w)
    (hafter : word after' = [])
    (hpair : ∀ c ∈ w.getLast?, ∀ d ∈ after'.head?, isPair c d = false) :
    word (w ++ after') = w := by
  induction w with
  | nil => exact hafter
  | cons c w ih =>
    obtain ⟨hblank, hdelimiter, hstarts, hw⟩ := (word_cons_append_eq_iff ..).mp h
    refine (word_cons_append_eq_iff ..).mpr ⟨hblank, hdelimiter, ?_, ih hw fun e he => hpair e ?_⟩
    · cases w with
      | cons d w => exact hstarts
      | nil =>
        cases after' with
        | nil => rfl
        | cons d after' => exact hpair c rfl d rfl
    · cases w with
      | nil => exact nomatch he
      | cons d w => simpa using he

/-- A word stays the longest one if the text after it goes on, unless it ends the text and makes a
pair with what comes. -/
theorem word_append_append {w after more : Text} (h : word (w ++ after) = w)
    (hafter : word (after ++ more) = [])
    (hpair : after = [] → ∀ c ∈ w.getLast?, ∀ d ∈ more.head?, isPair c d = false) :
    word (w ++ (after ++ more)) = w := by
  refine word_append_of_word h hafter fun c hc d hd => ?_
  cases after with
  | nil => exact hpair rfl c hc d hd
  | cons e after => exact isPair_of_word h hc hd

/-! ## Plain texts -/

/-- A text without delimiters and without pairs, as it stands between two tokens or inside one. -/
structure Plain (text : Text) : Prop where
  delimiter : ∀ c ∈ text, isDelimiter c = false
  pair : ∀ c d, [c, d] <:+: text → isPair c d = false

theorem plain_nil : Plain [] where
  delimiter _ h := nomatch h
  pair c d h := by
    obtain ⟨u, v, heq⟩ := h
    simp at heq

/-- What lies within a plain text is plain. -/
theorem Plain.of_isInfix {a b : Text} (hb : b.Plain) (h : a <:+: b) : a.Plain where
  delimiter c hc := hb.delimiter c (h.subset hc)
  pair c d hwithin := hb.pair c d (hwithin.trans h)

/-- A plain text goes on with a character that makes no pair with its last one. -/
theorem Plain.concat {text : Text} {c : Char} (h : text.Plain) (hc : isDelimiter c = false)
    (hpair : ∀ d ∈ text.getLast?, isPair d c = false) : Plain (text ++ [c]) where
  delimiter d hd := by
    rcases List.mem_append.mp hd with hd | hd
    · exact h.delimiter d hd
    · rw [List.mem_singleton.mp hd]
      exact hc
  pair d e hwithin := by
    rcases List.infix_concat_iff.mp hwithin with hends | hwithin
    · -- The pair stands at the very end.
      obtain ⟨u, heq⟩ := hends
      have heq' : (u ++ [d]) ++ [e] = text ++ [c] := by simpa using heq
      obtain ⟨htext, hlast⟩ := List.append_inj' heq' rfl
      obtain rfl : e = c := by simpa using hlast
      exact hpair d (by rw [← htext]; simp)
    · exact h.pair d e hwithin

/-- A plain text without blanks is a word as long as nothing goes on with it. -/
theorem word_append_of_plain {w after : Text} (hw : Plain w) (hblank : w.hasBlank = false)
    (hlast : ∀ c ∈ w.getLast?, ∀ d ∈ after.head?, isPair c d = false)
    (hafter : word after = []) : word (w ++ after) = w := by
  induction w with
  | nil => exact hafter
  | cons c w ih =>
    simp only [hasBlank, List.any_cons, Bool.or_eq_false_iff] at hblank
    refine (word_cons_append_eq_iff ..).mpr ⟨hblank.1, hw.delimiter c List.mem_cons_self, ?_, ?_⟩
    · -- The last character of the word meets the text behind it; any other meets the next one.
      cases w with
      | nil =>
        cases after with
        | nil => rfl
        | cons d after => exact hlast c rfl d rfl
      | cons d w => exact hw.pair c d ⟨[], w, by simp⟩
    · have hends : w <:+: c :: w := (List.suffix_cons c w).isInfix
      -- What remains of the word is plain as well, and ends with the same character.
      refine ih (hw.of_isInfix hends) hblank.2 ?_
      intro d hd
      cases w with
      | nil => exact nomatch hd
      | cons e w => exact hlast d (by simpa using hd)

/-- A text without blanks within a plain one is a word if only blanks follow it there, and no word
goes on behind the plain text. -/
theorem word_append_of_plain_span {before w after rest : Text}
    (hplain : Plain (before ++ w ++ after)) (hw : w.hasBlank = false) (hafter : after.AllBlank)
    (hlast : ∀ c ∈ (before ++ w ++ after).getLast?, ∀ d ∈ rest.head?, isPair c d = false)
    (hrest : word rest = []) : word (w ++ (after ++ rest)) = w := by
  have hwithin : w.Plain := hplain.of_isInfix ⟨before, after, rfl⟩
  refine word_append_of_plain hwithin hw ?_ ((Trivia.of_allBlank hafter).word_append hrest)
  intro c hc d hd
  obtain ⟨w', rfl⟩ := List.getLast?_eq_some_iff.mp hc
  cases after with
  | nil => exact hlast c (by simp) d hd
  | cons e after =>
    obtain rfl : e = d := by simpa using hd
    exact hplain.pair c e ⟨before ++ w', after, by simp⟩

end Text

end Keymap
