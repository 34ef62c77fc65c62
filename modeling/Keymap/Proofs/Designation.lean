import Keymap.Proofs.Balanced
import Keymap.Proofs.Source

/-!
# What a fault designates

Where in a text a fault of each kind lies, said of the characters and of the grammar. A list of
arguments that is open at some place is known by its parenthesis and by what the grammar derives
between the parenthesis and that place. Comments are those that stand within a layer, since the
text between layers is not read.

## Key results

- `Trivia.exists_blanks` — trivia end with blanks, behind a comment or a continued line if with
  anything else
- `Designates.lt_length` — the offset of a fault lies within the text
- `Designates.exists_slice` — the token of a blank within a key stands around the offset
-/

namespace Keymap

/-! ## Open lists of arguments -/

/-- What may be read of an argument if its list goes on with the given text: trivia, or a token with
trivia around it. -/
inductive Begun (rest : Text) : Text → Prop where
  | trivia {read : Text} : Trivia read → Begun rest read
  | token {before after : Text} {token : Token} : Trivia before → token.Fits (after ++ rest) →
      Trivia after → Begun rest (before ++ token.text ++ after)

variable [Machine]

/-- A parenthesis between two texts opens a list of arguments: that of a layer, or that of a call
in a list that is open itself. -/
inductive Opens (opener : Text) : Text → Text → Prop where
  | layer {passages : List Passage} {gap rest : Text} :
      (∀ passage ∈ passages, passage.Fits opener) → ¬ marker opener <:+: gap ++ opener →
      Opens opener (passagesText opener passages ++ gap ++ opener) rest
  | call {before current name blanks rest : Text} {args : ArgumentList} :
      Opens opener before (args.leading ++ current ++ (name ++ blanks ++ '(' :: rest)) →
      args.Fit → Begun (name ++ blanks ++ '(' :: rest) current → name ≠ [] →
      Text.word (name ++ blanks) = name → blanks.AllBlank →
      Opens opener (before ++ '(' :: (args.leading ++ current ++ (name ++ blanks))) rest

/-- A separator ends the first text: the parenthesis of a list that is open, or a comma behind an
argument of that list. -/
def Separates (opener before rest : Text) : Prop :=
  ∃ (outside : Text) (args : ArgumentList), before = outside ++ '(' :: args.leading ∧
    Opens opener outside (args.leading ++ rest) ∧ args.Fit

/-- What ends the first text leaves no word open: a separator, a call, a comment or a continued
line. -/
inductive Breaks (opener : Text) : Text → Text → Prop where
  | separator {before rest : Text} : Separates opener before rest → Breaks opener before rest
  | call {before lead name blanks rest : Text} {args : ArgumentList} :
      Separates opener before (lead ++ (Token.call name blanks args).text ++ rest) → Trivia lead →
      (Token.call name blanks args).Fits rest →
      Breaks opener (before ++ lead ++ (Token.call name blanks args).text) rest
  | skipped {before current piece rest : Text} :
      Separates opener before (current ++ piece ++ rest) → Begun (piece ++ rest) current →
      Skipped piece → Breaks opener (before ++ current ++ piece) rest

/-! ## Faults within a layer -/

/-- Only trivia stand between a separator and the comma or closing parenthesis at the offset. -/
def LacksToken (opener text : Text) (offset : Nat) : Prop :=
  ∃ (before trivia rest : Text) (d : Char), text = before ++ trivia ++ d :: rest ∧
    offset = (before ++ trivia).length ∧ (d = ',' ∨ d = ')') ∧ Trivia trivia ∧
    Separates opener before (trivia ++ d :: rest)

/-- Only blanks stand between what leaves no word open and the opening parenthesis at the
offset. -/
def LacksName (opener text : Text) (offset : Nat) : Prop :=
  ∃ before blanks rest : Text, text = before ++ blanks ++ '(' :: rest ∧
    offset = (before ++ blanks).length ∧ blanks.AllBlank ∧
    Breaks opener before (blanks ++ '(' :: rest)

/-- At the offset stands a name with a blank within it, up to blanks and an opening parenthesis. -/
def SplitsName (text : Text) (offset : Nat) (name : Text) : Prop :=
  ∃ before blanks rest : Text, text = before ++ name ++ blanks ++ '(' :: rest ∧
    offset = before.length ∧ name.hasBlank = true ∧ (∀ c ∈ name.head?, isBlank c = false) ∧
    (∀ c ∈ name.getLast?, isBlank c = false) ∧ blanks.AllBlank

/-- The first blank of a token stands at the offset, within the token. -/
def SplitsWord (text : Text) (offset : Nat) (token : Text) : Prop :=
  ∃ (before first more rest : Text) (c : Char), token = first ++ c :: more ∧
    text = before ++ token ++ rest ∧ offset = before.length + first.length ∧ first ≠ [] ∧
    first.hasBlank = false ∧ isBlank c = true ∧ more ≠ []

/-- At the offset stands the second token behind a separator, where there is room for one. -/
def CrowdsSlot (opener text : Text) (offset : Nat) (chars : Text) : Prop :=
  ∃ (before lead between rest : Text) (first second : Token),
    chars = first.text ++ between ++ second.text ∧ text = before ++ lead ++ chars ++ rest ∧
    offset = before.length + lead.length + first.text.length + between.length ∧
    Separates opener before (lead ++ chars ++ rest) ∧ Trivia lead ∧
    first.Fits (between ++ second.text ++ rest) ∧ Trivia between ∧ second.Fits rest

/-- At the offset stands an opening parenthesis that no other one closes. -/
def NeverCloses (opener text : Text) (offset : Nat) : Prop :=
  ∃ before rest : Text, text = before ++ '(' :: rest ∧ offset = before.length ∧
    Opens opener before rest ∧ ∀ inner more, rest = inner ++ ')' :: more → ¬ Balanced inner

/-! ## Faults of layers -/

/-- At the offset begins the first layer that has another size than the first one of all. -/
def Differs (opener text : Text) (offset : Nat) (expected actual layer : Int) : Prop :=
  ∃ (first later : List Passage) (passage : Passage) (tail : Text),
    text = passagesText opener first ++ passage.text opener ++ passagesText opener later ++ tail ∧
    (∀ p ∈ first ++ passage :: later, p.Fits opener) ∧ ¬ marker opener <:+: tail ∧
    offset = (passagesText opener first).length + passage.gap.length ∧ first ≠ [] ∧
    (∀ p ∈ first, p.args.length = expected) ∧ passage.args.length = actual ∧ actual ≠ expected ∧
    first.length = layer

/-- At the offset begins the first layer, and all layers have another size than is asked for. -/
def Miscounts (opener text : Text) (keyCount : Option Int) (offset : Nat)
    (expected actual : Int) : Prop :=
  ∃ (first : Passage) (later : List Passage) (tail : Text),
    text = first.text opener ++ passagesText opener later ++ tail ∧
    (∀ p ∈ first :: later, p.Fits opener) ∧ ¬ marker opener <:+: tail ∧
    offset = first.gap.length ∧ (∀ p ∈ first :: later, p.args.length = actual) ∧
    keyCount = some expected ∧ actual ≠ expected

/-! ## Faults -/

/-- The offset of a text is the one that a fault of the given cause is about. -/
def Designates (opener text : Text) (keyCount : Option Int) (offset : Nat) : Cause → Prop
  | .noInvocation name => name = opener ∧ ¬ marker opener <:+: text ∧ offset = 0
  | .missingToken => LacksToken opener text offset
  | .missingName => LacksName opener text offset
  | .blankInName name => SplitsName text offset name
  | .blankInKey token => SplitsWord text offset token ∨ CrowdsSlot opener text offset token
  | .unclosed => NeverCloses opener text offset
  | .unevenLayers expected actual layer => Differs opener text offset expected actual layer
  | .wrongKeyCount expected actual => Miscounts opener text keyCount offset expected actual
  | .tooDeep | .stated _ => False

/-- The offset of a fault lies within the text, unless there is no layer in it. -/
theorem Designates.lt_length {opener text : Text} {keyCount : Option Int} {offset : Nat}
    {cause : Cause} (h : Designates opener text keyCount offset cause)
    (hcause : cause ≠ .noInvocation opener) : offset < text.length := by
  -- In each case the offset is followed by a character that the cause needs.
  cases cause with
  | noInvocation name =>
    obtain ⟨rfl, -, -⟩ := h
    exact absurd rfl hcause
  | missingToken =>
    obtain ⟨before, trivia, rest, d, rfl, rfl, -⟩ := h
    simp only [List.length_append, List.length_cons]
    omega
  | missingName =>
    obtain ⟨before, blanks, rest, rfl, rfl, -⟩ := h
    simp only [List.length_append, List.length_cons]
    omega
  | blankInName name =>
    obtain ⟨before, blanks, rest, rfl, rfl, -⟩ := h
    simp only [List.length_append, List.length_cons]
    omega
  | blankInKey token =>
    -- The blank stands within one token, or between two.
    rcases h with ⟨before, first, more, rest, c, rfl, rfl, rfl, -⟩ |
      ⟨before, lead, between, rest, first, second, rfl, rfl, rfl, -, -, -, -, hsecond⟩
    · simp only [List.length_append, List.length_cons]
      omega
    · have := List.length_pos_iff.mpr (Token.text_ne_nil hsecond)
      simp only [List.length_append]
      omega
  | unclosed =>
    obtain ⟨before, rest, rfl, rfl, -⟩ := h
    simp only [List.length_append, List.length_cons]
    omega
  | unevenLayers expected actual layer =>
    obtain ⟨first, later, passage, tail, rfl, -, -, rfl, -⟩ := h
    have := passage.length_text opener
    simp only [List.length_append]
    omega
  | wrongKeyCount expected actual =>
    obtain ⟨first, later, tail, rfl, -, -, rfl, -⟩ := h
    have := first.length_text opener
    simp only [List.length_append]
    omega
  | tooDeep | stated message => exact h.elim

/-- The token that is reported for a blank within a key stands in the text around the offset. -/
theorem Designates.exists_slice {opener text token : Text} {keyCount : Option Int} {offset : Nat}
    (h : Designates opener text keyCount offset (.blankInKey token)) :
    ∃ start, start < offset ∧ offset < start + token.length ∧
      text.slice start (start + token.length) = token := by
  rcases h with ⟨before, first, more, rest, c, rfl, rfl, rfl, hfirst, -⟩ |
    ⟨before, lead, between, rest, first, second, rfl, rfl, rfl, -, -, hfirst, -, hsecond⟩
  · have hpos := List.length_pos_iff.mpr hfirst
    refine ⟨before.length, by omega, ?_, Text.slice_middle ..⟩
    simp only [List.length_append, List.length_cons]
    omega
  · have hfirst := List.length_pos_iff.mpr (Token.text_ne_nil hfirst)
    have hsecond := List.length_pos_iff.mpr (Token.text_ne_nil hsecond)
    refine ⟨(before ++ lead).length, ?_, ?_, Text.slice_middle ..⟩
    · simp only [List.length_append]
      omega
    · simp only [List.length_append]
      omega

/-! ## What trivia end with -/

omit [Machine] in
/-- Trivia end with blanks, which stand behind a comment or a continued line if anything else is
before them. -/
theorem Trivia.exists_blanks {a : Text} (h : Trivia a) :
    ∃ front blanks, a = front ++ blanks ∧ blanks.AllBlank ∧
      (front = [] ∨ ∃ lead piece, front = lead ++ piece ∧ Trivia lead ∧ Skipped piece) := by
  -- With one more piece in front, what stands before the last piece goes on being trivia.
  have later {piece rest : Text} (hpiece : Skipped piece)
      (ih : ∃ front blanks, rest = front ++ blanks ∧ blanks.AllBlank ∧
        (front = [] ∨ ∃ lead piece, front = lead ++ piece ∧ Trivia lead ∧ Skipped piece)) :
      ∃ front blanks, piece ++ rest = front ++ blanks ∧ blanks.AllBlank ∧
        (front = [] ∨ ∃ lead piece, front = lead ++ piece ∧ Trivia lead ∧ Skipped piece) := by
    obtain ⟨front, blanks, rfl, hblanks, rfl | ⟨lead, last, rfl, hlead, hlast⟩⟩ := ih
    · exact ⟨piece, blanks, rfl, hblanks, .inr ⟨[], piece, rfl, .nil, hpiece⟩⟩
    · exact ⟨piece ++ lead ++ last, blanks, by simp, hblanks,
        .inr ⟨piece ++ lead, last, rfl, hpiece.trivia.append hlead, hlast⟩⟩
  induction h with
  | nil => exact ⟨[], [], rfl, Text.allBlank_nil, .inl rfl⟩
  | @blank c rest hc _ ih =>
    obtain ⟨front, blanks, rfl, hblanks, rfl | ⟨lead, last, rfl, hlead, hlast⟩⟩ := ih
    · exact ⟨[], c :: blanks, rfl, (Text.allBlank_cons ..).mpr ⟨hc, hblanks⟩, .inl rfl⟩
    · exact ⟨c :: lead ++ last, blanks, rfl, hblanks,
        .inr ⟨c :: lead, last, rfl, .blank hc hlead, hlast⟩⟩
  | block hbody _ ih => simpa using later (.inl (.block hbody)) ih
  | line hbody _ ih => simpa using later (.inl (.line hbody)) ih
  | continued _ ih => exact later (.inr rfl) ih

end Keymap
