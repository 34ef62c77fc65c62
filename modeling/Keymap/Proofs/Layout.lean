import Keymap.Proofs.Balanced
import Keymap.Proofs.Source

/-!
# Layout

Where the keys of a text that parses stand in it. Every node of every key spans its own characters;
a list of arguments fills the space between its parentheses with keys, separators and trivia and
nothing else; and the invocations follow each other.

## Key results

- `ArgumentList.tiles` — the keys of arguments fill the space up to the closing parenthesis
- `Token.placed` — every node of a token stands where it says
- `layout_of_parse` — the layout of a text that parses
-/

namespace Keymap

/-! ## Parts of a text -/

namespace Text

/-- Whether a part stands in a text at an offset. -/
def Holds (text : Text) (pos : Nat) (part : Text) : Prop :=
  part <+: text.drop pos

variable {text : Text} {pos : Nat}

/-- A part stands after what is before it. -/
theorem holds_append (before part after : Text) :
    (before ++ part ++ after).Holds before.length part :=
  ⟨after, by rw [List.append_assoc, List.drop_left]⟩

/-- Two parts stand one after the other. -/
theorem holds_append_iff (a b : Text) :
    text.Holds pos (a ++ b) ↔ text.Holds pos a ∧ text.Holds (pos + a.length) b := by
  constructor
  · intro hparts
    obtain ⟨after, heq⟩ := hparts
    refine ⟨⟨b ++ after, by rw [← heq, List.append_assoc]⟩, ⟨after, ?_⟩⟩
    rw [← List.drop_drop, ← heq, List.append_assoc, List.drop_left]
  · intro hparts
    obtain ⟨⟨between, ha⟩, ⟨after, hb⟩⟩ := hparts
    rw [← List.drop_drop, ← ha, List.drop_left] at hb
    exact ⟨after, by rw [← ha, ← hb, List.append_assoc]⟩

theorem holds_cons_iff (c : Char) (rest : Text) :
    text.Holds pos (c :: rest) ↔ text[pos]? = some c ∧ text.Holds (pos + 1) rest := by
  have hsplit : text.Holds pos ([c] ++ rest) ↔ text.Holds pos [c] ∧ text.Holds (pos + 1) rest :=
    holds_append_iff [c] rest
  rw [← List.singleton_append, hsplit]
  apply and_congr_left
  intro _
  rw [Holds, ← List.head?_drop]
  cases text.drop pos with
  | nil => simp
  | cons d after => simp [List.cons_prefix_cons, eq_comm]

/-- The part that stands at an offset is the slice there. -/
theorem Holds.slice {part : Text} (h : text.Holds pos part) :
    text.slice pos (pos + part.length) = part := by
  obtain ⟨after, heq⟩ := h
  rw [Text.slice, ← heq, Nat.add_sub_cancel_left, List.take_left]

/-- A part that is not empty ends within the text. -/
theorem Holds.le_length {part : Text} (h : text.Holds pos part) (hne : part ≠ []) :
    pos + part.length ≤ text.length := by
  have hle := h.length_le
  have hpos := List.length_pos_iff.mpr hne
  rw [List.length_drop] at hle
  omega

/-- What a word or the name of a call consists of. -/
structure Wordlike (chars : Text) : Prop where
  ne_nil : chars ≠ []
  blank : ∀ c ∈ chars, isBlank c = false
  delimiter : ',' ∉ chars ∧ '(' ∉ chars ∧ ')' ∉ chars
  comment : ¬ ['/', '*'] <:+: chars ∧ ¬ ['/', '/'] <:+: chars

/-- No pair stands in a word. -/
theorem not_pair_infix_word (text : Text) {c d : Char} (h : [c, d] <:+: word text) :
    isPair c d = false := by
  induction text with
  | nil => simp at h
  | cons e rest ih =>
    rw [word] at h
    split at h <;> rename_i hcond
    · simp at h
    · rw [List.infix_cons_iff] at h
      rcases h with hstarts | hwithin
      · -- A word that goes on behind `c` has seen that `c` begins no pair with what is next.
        obtain ⟨rfl, hnext⟩ := List.cons_prefix_cons.mp hstarts
        cases rest with
        | nil => simp at hnext
        | cons f rest =>
          rw [word] at hnext
          split at hnext
          · simp at hnext
          · obtain ⟨rfl, -⟩ := List.cons_prefix_cons.mp hnext
            simp only [Bool.or_eq_true, not_or, Bool.not_eq_true] at hcond
            exact hcond.2
      · exact ih hwithin

/-- The longest word at the head of a text consists of what words consist of. -/
theorem wordlike_of_word_append {chars after : Text} (hne : chars ≠ [])
    (h : word (chars ++ after) = chars) : chars.Wordlike := by
  have hmem (c : Char) (hc : c ∈ chars) : isBlank c = false ∧ isDelimiter c = false := by
    rw [← h] at hc
    exact of_mem_word hc
  have hdelimiter (c : Char) (hc : isDelimiter c = true) : c ∉ chars := by
    intro hin
    rw [(hmem c hin).2] at hc
    exact nomatch hc
  have hpair (c d : Char) (hcd : isPair c d = true) : ¬ [c, d] <:+: chars := by
    intro hwithin
    rw [← h] at hwithin
    rw [not_pair_infix_word _ hwithin] at hcd
    exact nomatch hcd
  exact {
    ne_nil := hne
    blank := fun c hc => (hmem c hc).1
    delimiter := ⟨hdelimiter _ rfl, hdelimiter _ rfl, hdelimiter _ rfl⟩
    comment := ⟨hpair _ _ rfl, hpair _ _ rfl⟩ }

end Text

/-! ## Keys in their place -/

/-- Trivia with one comma among them that is not part of a comment. -/
def Separator (text : Text) : Prop :=
  ∃ before after, Trivia before ∧ Trivia after ∧ text = before ++ ',' :: after

/-- Keys that fill a space of a text: there is at least one, and besides them there are only trivia
and one comma between any two. -/
structure Tiles (text : Text) (start stop : Nat) (keys : List Key) : Prop where
  keys_ne_nil : keys ≠ []
  first : ∀ key ∈ keys.head?, Trivia (text.slice start key.offset)
  between : ∀ a b, [a, b] <:+: keys → Separator (text.slice a.stop b.offset)
  last : ∀ key ∈ keys.getLast?, Trivia (text.slice key.stop stop)
  inside : ∀ key ∈ keys, start ≤ key.offset ∧ key.offset < key.stop ∧ key.stop ≤ stop
  ordered : keys.Pairwise fun a b => a.stop < b.offset

/-- A parenthesis with its partner before the offset `stop`, and keys that fill the space between
them. -/
structure Encloses (text : Text) (paren stop : Nat) (keys : List Key) : Prop where
  opens : text[paren]? = some '('
  closes : text[stop - 1]? = some ')'
  partner : Balanced (text.slice (paren + 1) (stop - 1))
  tiles : Tiles text (paren + 1) (stop - 1) keys

namespace Node

mutual

/-- A key and all nodes below it. -/
def nodes : Key → List Key
  | .word content offset stop => [.word content offset stop]
  | .call name params offset stop content =>
    .call name params offset stop content :: nodesAll params
  | .strange value => nomatch value

/-- Several keys and all nodes below them. -/
def nodesAll : List Key → List Key
  | [] => []
  | key :: rest => nodes key ++ nodesAll rest

end

/-- What a node says of the characters in its span. -/
def Shaped (text : Text) : Key → Prop
  | .word content _ _ => content.Wordlike
  | .call name params offset stop _ =>
    name.Wordlike ∧ text.slice offset (offset + name.length) = name ∧
      ∃ paren, offset + name.length ≤ paren ∧
        (text.slice (offset + name.length) paren).AllBlank ∧ Encloses text paren stop params
  | .strange value => nomatch value

/-- A node that stands where it says. -/
structure Placed (text : Text) (key : Key) : Prop where
  lt : key.offset < key.stop
  spans : key.Spans text
  shaped : key.Shaped text

end Node

/-! ## Arguments -/

section

variable {text : Text} {pos : Nat}

/-- The key of a token spans its characters. -/
theorem Token.spans {token : Token} (h : text.Holds pos token.text) (hne : token.text ≠ []) :
    (token.key pos).offset < (token.key pos).stop ∧ (token.key pos).Spans text := by
  have hlength := List.length_pos_iff.mpr hne
  have hle := h.le_length hne
  rw [Node.Spans, offset_key, stop_key, content_key, h.slice]
  exact ⟨by omega, by omega, hle, rfl⟩

/-- A key fills a space together with the trivia around it. -/
theorem Tiles.singleton {start stop : Nat} {key : Key}
    (hbefore : Trivia (text.slice start key.offset)) (hafter : Trivia (text.slice key.stop stop))
    (hstart : start ≤ key.offset) (hlt : key.offset < key.stop) (hstop : key.stop ≤ stop) :
    Tiles text start stop [key] where
  keys_ne_nil := by simp
  first := by simpa using hbefore
  between a b h := absurd h.length_le (by simp)
  last := by simpa using hafter
  inside := by simpa using ⟨hstart, hlt, hstop⟩
  ordered := List.pairwise_singleton _ _

/-- A key and a comma fill a space together with the keys behind the comma. -/
theorem Tiles.cons {start comma stop : Nat} {key : Key} {keys : List Key}
    (hbefore : Trivia (text.slice start key.offset)) (hafter : Trivia (text.slice key.stop comma))
    (hcomma : text[comma]? = some ',') (hstart : start ≤ key.offset) (hlt : key.offset < key.stop)
    (hstop : key.stop ≤ comma) (h : Tiles text (comma + 1) stop keys) :
    Tiles text start stop (key :: keys) where
  keys_ne_nil := by simp
  first := by simpa using hbefore
  between a b hab := by
    rw [List.infix_cons_iff] at hab
    rcases hab with hstarts | hwithin
    · -- The first two keys.
      obtain ⟨rfl, hnext⟩ := List.cons_prefix_cons.mp hstarts
      obtain ⟨later, rfl⟩ := hnext
      have hb := h.inside b (by simp)
      have hsplit := Text.slice_append_slice text hstop (Nat.le_trans (Nat.le_succ _) hb.1)
      rw [Text.slice_eq_cons hcomma hb.1] at hsplit
      exact ⟨_, _, hafter, h.first b (by simp), hsplit.symm⟩
    · exact h.between a b hwithin
  last := by
    obtain ⟨next, later, rfl⟩ := List.exists_cons_of_ne_nil h.keys_ne_nil
    rw [List.getLast?_cons_cons]
    exact h.last
  inside := by
    obtain ⟨next, later, rfl⟩ := List.exists_cons_of_ne_nil h.keys_ne_nil
    have hnext := h.inside next (by simp)
    refine List.forall_mem_cons.mpr ⟨⟨hstart, hlt, by omega⟩, fun other hother => ?_⟩
    have hinside := h.inside other hother
    exact ⟨by omega, hinside.2⟩
  ordered := by
    refine List.pairwise_cons.mpr ⟨fun other hother => ?_, h.ordered⟩
    have hinside := h.inside other hother
    omega

/-- The keys of arguments fill the space up to the closing parenthesis. -/
theorem ArgumentList.tiles {args : ArgumentList} (hne : args ≠ []) (hfit : args.Fit)
    (h : text.Holds pos args.text) :
    Tiles text pos (pos + args.text.length - 1) (args.keys pos) := by
  induction args generalizing pos with
  | nil => exact absurd rfl hne
  | cons arg rest ih =>
    obtain ⟨⟨hbefore, htoken, hafter⟩, hrest⟩ := (fit_cons ..).mp hfit
    have htokenlength := List.length_pos_iff.mpr (Token.text_ne_nil htoken)
    rw [text_cons, Argument.text, Text.holds_append_iff, Text.holds_append_iff,
      Text.holds_append_iff, Text.holds_cons_iff] at h
    simp only [List.length_append, ← Nat.add_assoc] at h
    obtain ⟨⟨⟨hb, -⟩, ha⟩, hcloser, hr⟩ := h
    -- Offsets count from the beginning of the arguments.
    have hcomma : pos + arg.text.length =
        pos + arg.before.length + arg.token.text.length + arg.after.length := by
      simp only [Argument.text, List.length_append, Nat.add_assoc]
    have hend : pos + (ArgumentList.text (arg :: rest)).length - 1 =
        pos + arg.text.length + (ArgumentList.text rest).length := by
      simp only [text_cons, List.length_append, List.length_cons]
      omega
    -- The key lies between the trivia around it.
    have hoffset := Token.offset_key (pos + arg.before.length) arg.token
    have hstop := Token.stop_key (pos + arg.before.length) arg.token
    rw [hend, keys_cons]
    generalize arg.token.key (pos + arg.before.length) = key at *
    have hfirst : Trivia (text.slice pos key.offset) := by rwa [hoffset, hb.slice]
    have hlast : Trivia (text.slice key.stop (pos + arg.text.length)) := by
      rwa [hcomma, hstop, ha.slice]
    cases rest with
    | nil =>
      -- The closing parenthesis comes next.
      rw [keys_nil, text_nil, List.length_nil, Nat.add_zero]
      exact .singleton hfirst hlast (by omega) (by omega) (by omega)
    | cons next rest =>
      -- A comma comes next, and the other arguments behind it.
      rw [← hcomma] at hcloser hr
      have hlater := ih (by simp) hrest hr
      have hpos : 0 < (ArgumentList.text (next :: rest)).length := by
        rw [text_cons, List.length_append, List.length_cons]
        omega
      have hstop' : pos + arg.text.length + 1 + (ArgumentList.text (next :: rest)).length - 1 =
          pos + arg.text.length + (ArgumentList.text (next :: rest)).length := by omega
      rw [hstop'] at hlater
      exact .cons hfirst hlast hcloser (by omega) (by omega) (by omega) hlater

/-- A parenthesis before arguments encloses their keys. -/
theorem ArgumentList.encloses {args : ArgumentList} (hne : args ≠ []) (hfit : args.Fit)
    (h : text.Holds pos ('(' :: args.text)) :
    Encloses text pos (pos + 1 + args.text.length) (args.keys (pos + 1)) := by
  obtain ⟨hopens, hargs⟩ := (Text.holds_cons_iff ..).mp h
  -- The last character of the arguments is the partner of the parenthesis.
  obtain ⟨inner, htext, hbalanced⟩ := ArgumentList.balanced_text hfit hne
  have htiles := tiles hne hfit hargs
  have hlength : pos + 1 + args.text.length - 1 = pos + 1 + inner.length := by
    rw [htext, List.length_append, List.length_singleton]
    omega
  rw [htext, Text.holds_append_iff, Text.holds_cons_iff] at hargs
  obtain ⟨hinner, hcloses, -⟩ := hargs
  refine ⟨hopens, ?_, ?_, htiles⟩
  · rwa [hlength]
  · rwa [hlength, hinner.slice]

mutual

/-- Every node of a token stands where it says. -/
theorem Token.placed {pos : Nat} {token : Token} {after : Text} (hfits : token.Fits after)
    (h : text.Holds pos token.text) :
    ∀ node ∈ (token.key pos).nodes, node.Placed text := by
  have hne := Token.text_ne_nil hfits
  have hspans := Token.spans h hne
  match token with
  | .word chars =>
    rw [Token.Fits] at hfits
    have hword := Text.wordlike_of_word_append hfits.1 hfits.2
    rw [Token.key] at hspans ⊢
    rw [Node.nodes, List.forall_mem_singleton]
    exact ⟨hspans.1, hspans.2, hword⟩
  | .call name blanks args =>
    rw [Token.Fits] at hfits
    obtain ⟨hname, hword, hblanks, hargsne, hargs⟩ := hfits
    -- The name, the blanks, and the parenthesis with the arguments stand one after the other.
    rw [Token.text_call, Text.holds_append_iff, Text.holds_append_iff, List.length_append,
      ← Nat.add_assoc] at h
    obtain ⟨⟨hn, hb⟩, hparen⟩ := h
    have hencloses := ArgumentList.encloses hargsne hargs hparen
    have hstop : pos + (Token.call name blanks args).text.length =
        pos + name.length + blanks.length + 1 + (ArgumentList.text args).length := by
      rw [Token.text_call, List.length_append, List.length_append, List.length_cons]
      omega
    rw [Token.key, hstop] at hspans ⊢
    rw [Node.nodes, List.forall_mem_cons]
    refine ⟨⟨hspans.1, hspans.2, Text.wordlike_of_word_append hname hword, hn.slice,
      pos + name.length + blanks.length, by omega, ?_, hencloses⟩, ?_⟩
    · rwa [hb.slice]
    · exact ArgumentList.placed hargs ((Text.holds_cons_iff ..).mp hparen).2

/-- Every node of arguments stands where it says. -/
theorem ArgumentList.placed {pos : Nat} {args : ArgumentList} (hfit : args.Fit)
    (h : text.Holds pos args.text) :
    ∀ node ∈ Node.nodesAll (args.keys pos), node.Placed text := by
  match args with
  | [] => exact fun node hnode => nomatch hnode
  | ⟨before, token, after⟩ :: rest =>
    rw [ArgumentList.Fit] at hfit
    obtain ⟨-, htoken, -, hrest⟩ := hfit
    rw [ArgumentList.text, Text.holds_append_iff, Text.holds_append_iff, Text.holds_append_iff,
      Text.holds_cons_iff] at h
    simp only [List.length_append, ← Nat.add_assoc] at h
    obtain ⟨⟨⟨-, ht⟩, -⟩, -, hr⟩ := h
    rw [ArgumentList.keys, Node.nodesAll, List.forall_mem_append]
    exact ⟨Token.placed htoken ht, ArgumentList.placed hrest hr⟩

end

end

/-! ## Invocations -/

/-- An invocation that stands where it says. -/
structure Invocation.Placed (opener text : Text) (invocation : Invocation) : Prop where
  name : text.slice invocation.start (invocation.start + opener.length) = opener
  encloses : Encloses text (invocation.start + opener.length) invocation.stop invocation.keys
  nodes : ∀ node ∈ Node.nodesAll invocation.keys, node.Placed text

/-- The invocation of a passage stands where it says. -/
theorem Passage.placed [Machine] {opener text : Text} {pos : Nat} {passage : Passage}
    (hfits : passage.Fits opener) (h : text.Holds pos (passage.text opener)) :
    (passage.invocation opener pos).Placed opener text := by
  have hsplit : passage.text opener = passage.gap ++ opener ++ '(' :: passage.args.text := by
    rw [Passage.text, marker]
    simp
  have hstop : pos + (passage.text opener).length =
      pos + passage.gap.length + opener.length + 1 + passage.args.text.length := by
    rw [length_text]
    omega
  rw [hsplit, Text.holds_append_iff, Text.holds_append_iff, List.length_append,
    ← Nat.add_assoc] at h
  obtain ⟨⟨-, hopener⟩, hparen⟩ := h
  rw [Passage.invocation, Passage.keys_eq, hstop]
  exact {
    name := hopener.slice
    encloses := ArgumentList.encloses hfits.args_ne_nil hfits.args hparen
    nodes := ArgumentList.placed hfits.args ((Text.holds_cons_iff ..).mp hparen).2 }

/-- Invocations of passages follow each other. -/
theorem pairwise_invocations (opener : Text) (pos : Nat) (passages : List Passage) :
    (invocations opener pos passages).Pairwise fun a b => a.stop ≤ b.start := by
  induction passages generalizing pos with
  | nil => exact .nil
  | cons passage rest ih =>
    apply List.Pairwise.cons _ (ih _)
    intro later hlater
    obtain ⟨first, next, others, -, rfl⟩ := exists_of_mem_invocations hlater
    simp only [Passage.invocation]
    omega

/-- The layout of a text that parses. The layers are the keys of the invocations, each of which
stands where it says. The invocations follow each other, and the text has been read up to the end
of the last one. -/
theorem layout_of_parse [Machine] {text : Text} {keyCount : Option Int} {opener : Text}
    {outline : Outline} (h : parse text keyCount opener = .ok outline) :
    outline.layers = (readText text keyCount opener).found.map (·.keys) ∧
      (∀ invocation ∈ (readText text keyCount opener).found, invocation.Placed opener text) ∧
      (readText text keyCount opener).found.Pairwise (fun a b => a.stop ≤ b.start) ∧
      (readText text keyCount opener).found.getLast?.map (·.stop) = some outline.stop := by
  obtain ⟨source, size, hfits, -, rfl, rfl⟩ := (parse_eq_ok_iff ..).mp h
  have hstop := map_stop_invocations opener 0 hfits.passages_ne_nil
  rw [Nat.zero_add] at hstop
  rw [hfits.found_readText keyCount]
  refine ⟨rfl, fun invocation hmem => ?_, pairwise_invocations .., hstop⟩
  obtain ⟨first, passage, later, hpassages, rfl⟩ := exists_of_mem_invocations hmem
  have htext : source.text opener = passagesText opener first ++ passage.text opener ++
      (passagesText opener later ++ source.tail) := by
    rw [Source.text, hpassages]
    simp
  rw [Nat.zero_add, htext]
  exact Passage.placed (hfits.passages passage (by rw [hpassages]; simp)) (Text.holds_append ..)

open Usual

/-- The layout of a word and a call with blanks around its parameter. -/
theorem layout_of_word_and_call :
    parse "K(A,f ( B ))".toList none "K".toList =
        .ok ⟨[[.word "A".toList 2 3, .call "f".toList [.word "B".toList 8 9] 4 11
          "f ( B )".toList]], 12⟩ ∧
      ∀ invocation ∈ (readText "K(A,f ( B ))".toList none "K".toList).found,
        invocation.Placed "K".toList "K(A,f ( B ))".toList := by
  have hparse : parse "K(A,f ( B ))".toList none "K".toList =
      .ok ⟨[[.word "A".toList 2 3, .call "f".toList [.word "B".toList 8 9] 4 11
        "f ( B )".toList]], 12⟩ := by cbv
  exact ⟨hparse, (layout_of_parse hparse).2.1⟩

end Keymap
