import Keymap.Node.Basic
import Keymap.Proofs.Word

/-!
# The grammar of arguments

How the arguments of a layer are written: separated by commas and closed by a parenthesis, each of
them a token with trivia around it. A token is a word, or a call with arguments of its own. A tree
of this grammar holds every character of the text that it derives, and says which keys the text
means and where they stand.

## Key results

- `ArgumentList.text_append` — the text of a list of arguments is that of its parts
- `ArgumentList.keys_append` — and so are its keys
- `Token.offset_key`, `Token.stop_key`, `Token.content_key` — the key of a token spans its text
-/

namespace Keymap

/-! ## Trees -/

/-- An argument as it is written: a token with what stands before and after it. -/
structure Argument (τ : Type) where
  before : Text
  token : τ
  after : Text

/-- A token as it is written: a word, or a name with blanks before the parenthesis and arguments
after it. -/
inductive Token where
  | word (chars : Text)
  | call (name blanks : Text) (args : List (Argument Token))

/-- Arguments as they are written, in reading order. -/
abbrev ArgumentList := List (Argument Token)

/-- The character behind an argument with the given arguments after it. -/
def closer : ArgumentList → Char
  | [] => ')'
  | _ :: _ => ','

/-- What an argument ends before depends on how many arguments follow it. -/
theorem closer_congr {args args' : ArgumentList} (h : args.length = args'.length) :
    closer args = closer args' := by
  cases args <;> cases args' <;> first | rfl | simp at h

/-- An argument ends before a delimiter. -/
theorem isDelimiter_closer (args : ArgumentList) : isDelimiter (closer args) = true := by
  cases args <;> rfl

mutual

/-- The characters of a token. -/
def Token.text : Token → Text
  | .word chars => chars
  | .call name blanks args => name ++ blanks ++ '(' :: ArgumentList.text args

/-- The characters of arguments, through the closing parenthesis. -/
def ArgumentList.text : ArgumentList → Text
  | [] => []
  | ⟨before, token, after⟩ :: rest =>
    before ++ token.text ++ after ++ closer rest :: ArgumentList.text rest

end

mutual

/-- The key that a token at an offset means. -/
def Token.key (pos : Nat) : Token → Key
  | .word chars => .word chars pos (pos + chars.length)
  | .call name blanks args =>
    .call name (ArgumentList.keys (pos + name.length + blanks.length + 1) args) pos
      (pos + (Token.call name blanks args).text.length) (Token.call name blanks args).text

/-- The keys that arguments from an offset on mean. -/
def ArgumentList.keys (pos : Nat) : ArgumentList → List Key
  | [] => []
  | ⟨before, token, after⟩ :: rest =>
    token.key (pos + before.length) ::
      ArgumentList.keys (pos + before.length + token.text.length + after.length + 1) rest

end

mutual

/-- What a token with trivia after it must be like. A word, or the name of a call, is the longest
one where it stands. -/
def Token.Fits (after : Text) : Token → Prop
  | .word chars => chars ≠ [] ∧ Text.word (chars ++ after) = chars
  | .call name blanks args =>
    name ≠ [] ∧ Text.word (name ++ blanks) = name ∧ blanks.AllBlank ∧ args ≠ [] ∧
      ArgumentList.Fit args

/-- What arguments must be like. -/
def ArgumentList.Fit : ArgumentList → Prop
  | [] => True
  | ⟨before, token, after⟩ :: rest =>
    Trivia before ∧ token.Fits after ∧ Trivia after ∧ ArgumentList.Fit rest

end

mutual

/-- How deeply calls stand in each other in a tree. -/
def Node.depth {ι α : Type} : Node ι α → Nat
  | .word .. => 0
  | .call _ params _ _ _ => Node.depthAll params + 1
  | .strange _ => 0

/-- How deeply calls stand in each other in any of several trees. -/
def Node.depthAll {ι α : Type} : List (Node ι α) → Nat
  | [] => 0
  | node :: rest => max (Node.depth node) (Node.depthAll rest)

end

/-- Several trees are as deep as the deepest of them. -/
theorem Node.depthAll_le_iff {ι α : Type} (nodes : List (Node ι α)) (limit : Nat) :
    Node.depthAll nodes ≤ limit ↔ ∀ node ∈ nodes, node.depth ≤ limit := by
  induction nodes with
  | nil => simp [Node.depthAll]
  | cons node rest ih => rw [Node.depthAll, Nat.max_le, ih, List.forall_mem_cons]

/-- The trees of two lists are as deep as those of both. -/
theorem Node.depthAll_append {ι α : Type} (nodes later : List (Node ι α)) :
    Node.depthAll (nodes ++ later) = max (Node.depthAll nodes) (Node.depthAll later) := by
  induction nodes with
  | nil => simp [Node.depthAll]
  | cons node rest ih => simp [Node.depthAll, ih, Nat.max_assoc]

/-! ## Tokens -/

namespace Token

@[simp] theorem text_word (chars : Text) : (word chars).text = chars := by rw [text]

@[simp] theorem text_call (name blanks : Text) (args : ArgumentList) :
    (call name blanks args).text = name ++ blanks ++ '(' :: ArgumentList.text args := by rw [text]

@[simp] theorem offset_key (pos : Nat) (token : Token) : (token.key pos).offset = pos := by
  cases token <;> simp [key, Node.offset]

@[simp] theorem stop_key (pos : Nat) (token : Token) :
    (token.key pos).stop = pos + token.text.length := by
  cases token <;> simp [key, Node.stop]

@[simp] theorem content_key (pos : Nat) (token : Token) :
    (token.key pos).content = token.text := by
  cases token <;> simp [key, Node.content]

/-- A token that fits has at least one character. -/
theorem text_ne_nil {after : Text} {token : Token} (h : token.Fits after) : token.text ≠ [] := by
  cases token with
  | word chars => simpa using h.1
  | call name blanks args => simp

/-- What comes after the trivia and a delimiter behind a token does not matter for the token. -/
theorem fits_append {after : Text} {token : Token} (rest : Text) {d : Char}
    (hafter : Trivia after) (hd : isDelimiter d = true) :
    token.Fits (after ++ d :: rest) ↔ token.Fits after := by
  cases token with
  | word chars => rw [Fits, Fits, Text.word_append_trivia chars rest hafter hd]
  | call name blanks args => rw [Fits, Fits]

/-- A token that can stand before trivia can stand before more of them, unless a pair comes about
at its end. -/
theorem Fits.append_trivia {token : Token} {after more : Text} (h : token.Fits after)
    (hafter : Trivia after) (hmore : Trivia more)
    (hpair : after = [] → ∀ c ∈ token.text.getLast?, ∀ d ∈ more.head?, isPair c d = false) :
    token.Fits (after ++ more) := by
  cases token with
  | word chars =>
    rw [Fits] at h ⊢
    rw [text_word] at hpair
    have hnone : Text.word (after ++ more) = [] := by
      simpa using (hafter.append hmore).word_append Text.word_nil
    exact ⟨h.1, Text.word_append_append h.2 hnone hpair⟩
  | call name blanks args =>
    rw [Fits] at h ⊢
    exact h

end Token

/-! ## Arguments -/

/-- The characters of an argument. -/
def Argument.text (arg : Argument Token) : Text :=
  arg.before ++ arg.token.text ++ arg.after

/-- What an argument must be like. -/
def Argument.Fits (arg : Argument Token) : Prop :=
  Trivia arg.before ∧ arg.token.Fits arg.after ∧ Trivia arg.after

namespace ArgumentList

@[simp] theorem text_nil : text [] = [] := by rw [text]

@[simp] theorem text_cons (arg : Argument Token) (rest : ArgumentList) :
    text (arg :: rest) = arg.text ++ closer rest :: text rest := by
  obtain ⟨before, token, after⟩ := arg
  rw [text, Argument.text]

@[simp] theorem keys_nil (pos : Nat) : keys pos [] = [] := by rw [keys]

@[simp] theorem keys_cons (pos : Nat) (arg : Argument Token) (rest : ArgumentList) :
    keys pos (arg :: rest) =
      arg.token.key (pos + arg.before.length) :: keys (pos + arg.text.length + 1) rest := by
  obtain ⟨before, token, after⟩ := arg
  rw [keys, Argument.text]
  simp only [List.length_append, Nat.add_assoc]

@[simp] theorem fit_nil : Fit [] := by rw [Fit]; trivial

@[simp] theorem fit_cons (arg : Argument Token) (rest : ArgumentList) :
    Fit (arg :: rest) ↔ arg.Fits ∧ Fit rest := by
  obtain ⟨before, token, after⟩ := arg
  rw [Fit, Argument.Fits]
  simp only [and_assoc]

/-- Arguments fit if each of them does. -/
theorem fit_iff (args : ArgumentList) : Fit args ↔ ∀ arg ∈ args, arg.Fits := by
  induction args with
  | nil => simp
  | cons arg rest ih => simp [ih]

/-- A list of arguments fits if its parts do. -/
@[simp] theorem fit_append (args later : ArgumentList) :
    Fit (args ++ later) ↔ Fit args ∧ Fit later := by
  rw [fit_iff, fit_iff, fit_iff, List.forall_mem_append]

/-- There is one key for each argument. -/
@[simp] theorem length_keys (pos : Nat) (args : ArgumentList) :
    (keys pos args).length = args.length := by
  induction args generalizing pos with
  | nil => simp
  | cons arg rest ih => simp [ih]

/-- The contents of the keys are the characters of the tokens. -/
theorem map_content_keys (pos : Nat) (args : ArgumentList) :
    (keys pos args).map Node.content = args.map (·.token.text) := by
  induction args generalizing pos with
  | nil => simp
  | cons arg rest ih => simp [ih]

/-- The characters of arguments that others follow: each with a comma after it. -/
def leading (args : ArgumentList) : Text :=
  args.flatMap fun arg => arg.text ++ [',']

@[simp] theorem leading_nil : leading [] = [] := rfl

@[simp] theorem leading_cons (arg : Argument Token) (rest : ArgumentList) :
    leading (arg :: rest) = arg.text ++ ',' :: leading rest := by
  simp [leading]

@[simp] theorem leading_append (args later : ArgumentList) :
    leading (args ++ later) = leading args ++ leading later := by
  simp [leading]

/-- The text of a list of arguments is that of its parts, one after the other. -/
theorem text_append (args : ArgumentList) {later : ArgumentList} (h : later ≠ []) :
    text (args ++ later) = leading args ++ text later := by
  induction args with
  | nil => rfl
  | cons arg rest ih =>
    have hcloser : closer (rest ++ later) = ',' := by
      cases rest with
      | nil => exact match later with | _ :: _ => rfl
      | cons _ _ => rfl
    rw [List.cons_append, text_cons, ih, leading_cons, hcloser, List.append_assoc]
    rfl

/-- With a comma in the place of their closing parenthesis, arguments are followed by others. -/
theorem leading_of_text {args : ArgumentList} {inner : Text} (hne : args ≠ [])
    (h : args.text = inner ++ [')']) : args.leading = inner ++ [','] := by
  rcases List.eq_nil_or_concat args with rfl | ⟨first, last, rfl⟩
  · exact absurd rfl hne
  · rw [List.concat_eq_append] at h ⊢
    rw [text_append first (List.cons_ne_nil last []), text_cons, text_nil, ← List.append_assoc] at h
    obtain ⟨rfl, -⟩ := List.append_inj' h rfl
    simp

/-- The keys of a list of arguments are those of its parts. -/
theorem keys_append (pos : Nat) (args later : ArgumentList) :
    keys pos (args ++ later) = keys pos args ++ keys (pos + (leading args).length) later := by
  induction args generalizing pos with
  | nil => simp
  | cons arg rest ih =>
    have hpos : pos + arg.text.length + 1 + (leading rest).length =
        pos + (leading (arg :: rest)).length := by
      simp only [leading_cons, List.length_append, List.length_cons]
      omega
    rw [List.cons_append, keys_cons, keys_cons, ih, hpos, List.cons_append]

/-- A key is that of an argument, with the arguments before it in front. -/
theorem exists_of_getElem?_keys {args : ArgumentList} {pos n : Nat} {key : Key}
    (h : (keys pos args)[n]? = some key) :
    ∃ (before : ArgumentList) (arg : Argument Token) (after : ArgumentList),
      args = before ++ arg :: after ∧ n = before.length ∧
        key = arg.token.key (pos + before.leading.length + arg.before.length) := by
  induction args generalizing pos n with
  | nil => simp at h
  | cons arg rest ih =>
    rw [keys_cons] at h
    cases n with
    | zero =>
      obtain rfl := Option.some.inj h
      exact ⟨[], arg, rest, rfl, rfl, rfl⟩
    | succ n =>
      obtain ⟨before, arg', after, rfl, rfl, rfl⟩ := ih h
      refine ⟨arg :: before, arg', after, rfl, rfl, ?_⟩
      rw [leading_cons, List.length_append, List.length_cons]
      congr 1
      omega

end ArgumentList

end Keymap
