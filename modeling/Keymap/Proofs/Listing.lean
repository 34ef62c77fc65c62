import Keymap.Proofs.Standalone

/-!
# Listing the keys of a layer

The keys of a layer are listed by their contents, with a comma and a space between any two. The
listing says all that the layer says: as the arguments of the opener it is read back to the same
keys, whatever comments, continued lines and calls their contents hold, and whatever stood around
them. A key that is read back is the same tree, moved as a whole to its place in the listing.

## Key results

- `Token.Fits.alone` — a token needs nothing of what stands around it
- `ArgumentList.text_listed`, `ArgumentList.keys_listed` — a listing is a list of arguments
- `parse_listing` — the listing of a layer is read back to its keys
-/

namespace Keymap

/-! ## Listings -/

/-- The contents of keys, with a comma and a space between any two. -/
def listing (keys : List Key) : Text :=
  ", ".toList.intercalate (keys.map Node.content)

/-- The keys of a listing that begins at an offset: each is moved to where its content stands. -/
def relisted (pos : Nat) : List Key → List Key
  | [] => []
  | key :: rest => key.shift key.offset pos :: relisted (pos + key.content.length + 2) rest

/-- Keys of a listing are as deep as they were. -/
theorem depthAll_relisted (pos : Nat) (keys : List Key) :
    Node.depthAll (relisted pos keys) = Node.depthAll keys := by
  induction keys generalizing pos with
  | nil => rfl
  | cons key rest ih =>
    rw [relisted, Node.depthAll, Node.depthAll, ih, Node.shift, Node.depth_relocate]

/-- The contents of the keys of a listing are those that are listed. -/
theorem map_content_relisted (pos : Nat) (keys : List Key) :
    (relisted pos keys).map Node.content = keys.map Node.content := by
  induction keys generalizing pos with
  | nil => rfl
  | cons key rest ih =>
    rw [relisted, List.map_cons, List.map_cons, ih, Node.shift, Node.content_relocate]

/-! ## Arguments of a listing -/

/-- A token that fits before trivia fits before a delimiter. -/
theorem Token.Fits.alone {token : Token} {after : Text} (h : token.Fits after) :
    token.Fits [] := by
  cases token with
  | word chars =>
    rw [Fits] at h ⊢
    exact ⟨h.1, Text.word_append_of_word h.2 rfl fun _ _ _ hd => nomatch hd⟩
  | call name blanks args =>
    rw [Fits] at h ⊢
    exact h

namespace ArgumentList

/-- The arguments with nothing around their tokens but a space between any two. -/
def listed (before : Text) : ArgumentList → ArgumentList
  | [] => []
  | arg :: rest => ⟨before, arg.token, []⟩ :: listed [' '] rest

@[simp] theorem length_listed (before : Text) (args : ArgumentList) :
    (args.listed before).length = args.length := by
  induction args generalizing before with
  | nil => rfl
  | cons arg rest ih => rw [listed, List.length_cons, List.length_cons, ih]

/-- The arguments of a listing are written like their tokens, with a comma and a space between any
two. -/
theorem text_listed (before : Text) {args : ArgumentList} (hne : args ≠ []) :
    (args.listed before).text =
      before ++ ", ".toList.intercalate (args.map (·.token.text)) ++ [')'] := by
  induction args generalizing before with
  | nil => exact absurd rfl hne
  | cons arg rest ih =>
    rw [listed, text_cons, closer_congr (length_listed [' '] rest)]
    cases rest with
    | nil => simp [listed, Argument.text, closer]
    | cons next later =>
      rw [ih [' '] (List.cons_ne_nil next later)]
      simp [List.intercalate_cons_cons, Argument.text, closer]

/-- The arguments of a listing mean the keys that are listed, in their new places. -/
theorem keys_listed (before : Text) (pos pos' : Nat) (args : ArgumentList) :
    (args.listed before).keys pos' = relisted (pos' + before.length) (args.keys pos) := by
  induction args generalizing before pos pos' with
  | nil => simp [listed, relisted]
  | cons arg rest ih =>
    have hnext : pos' + (Argument.text ⟨before, arg.token, []⟩).length + 1 + 1 =
        pos' + before.length + arg.token.text.length + 2 := by
      simp only [Argument.text, List.append_nil, List.length_append]
      omega
    have hkey := arg.token.shift_key (pos + arg.before.length) (pos' + before.length) 0
    rw [Nat.add_zero, Nat.add_zero] at hkey
    rw [listed, keys_cons, keys_cons, relisted, Token.offset_key, Token.content_key, hkey,
      ih [' '] (pos + arg.text.length + 1), List.length_singleton, hnext]

/-- The arguments of a listing fit if the tokens did. -/
theorem Fit.listed {args : ArgumentList} (h : args.Fit) {before : Text}
    (hbefore : before.AllBlank) : (args.listed before).Fit := by
  induction args generalizing before with
  | nil => exact fit_nil
  | cons arg rest ih =>
    obtain ⟨⟨-, htoken, -⟩, hrest⟩ := (fit_cons ..).mp h
    have hspace : Text.AllBlank [' '] := (Text.allBlank_cons ..).mpr ⟨rfl, Text.allBlank_nil⟩
    exact (fit_cons ..).mpr ⟨⟨.of_allBlank hbefore, htoken.alone, .nil⟩, ih hrest hspace⟩

end ArgumentList

/-! ## Reading a listing -/

section

variable [Machine]

/-- The listing of any layer of a text that parses is read back, as the arguments of the opener, to
the keys of the layer. There is one layer, which ends with the text, and its keys have the same
contents and are the same trees, each moved as a whole to its place in the listing. -/
theorem parse_listing {opener text : Text} {keyCount : Option Int} {outline : Outline}
    (h : parse text keyCount opener = .ok outline) {layer : List Key}
    (hlayer : layer ∈ outline.layers) :
    parse (marker opener ++ listing layer ++ [')']) keyCount opener =
        .ok ⟨[relisted (marker opener).length layer],
          (marker opener ++ listing layer ++ [')']).length⟩ ∧
      (relisted (marker opener).length layer).map Node.content = layer.map Node.content := by
  obtain ⟨source, size, hfits, hcount, rfl, rfl⟩ := (parse_eq_ok_iff ..).mp h
  obtain ⟨first, ⟨gap, args⟩, later, hpassages, rfl⟩ := Source.exists_passage hlayer
  have hmem : ⟨gap, args⟩ ∈ source.passages := by simp [hpassages]
  obtain ⟨-, hne, hfit, hdepth⟩ := hfits.passages _ hmem
  have hsize : args.length = size := hfits.size _ hmem
  refine ⟨?_, map_content_relisted _ _⟩
  rw [Passage.keys]
  generalize (passagesText opener first).length + gap.length + (marker opener).length = pos
  -- The listing is written as arguments of its own, which mean the keys in their new places.
  have htext : (args.listed []).text = listing (args.keys pos) ++ [')'] := by
    rw [ArgumentList.text_listed [] hne, listing, ArgumentList.map_content_keys, List.nil_append]
  have hkeys := ArgumentList.keys_listed [] pos (marker opener).length args
  have hdepth' : Node.depthAll ((args.listed []).keys 0) ≤ nestingLimit := by
    rwa [ArgumentList.keys_listed [] 0 0, depthAll_relisted]
  have hne' : args.listed [] ≠ [] := by
    simpa [← List.length_eq_zero_iff] using hne
  have hparse := @parse_arguments _ opener [] keyCount (args.listed []) hne'
    (hfit.listed Text.allBlank_nil) hdepth' (by simp [marker]) (by simpa [hsize] using hcount)
  rwa [htext, hkeys, List.append_nil, ← List.append_assoc] at hparse

end

open Usual

/-- A layer with a comment, a call that holds a line comment, and a word that ends in a slash. -/
theorem parse_listing_call_with_comment :
    let text := "// ,\nK( /* ( */ f(1, // )\n 2), A/ )".toList
    let layer : List Key := [.call ['f'] [.word ['1'] 18 19, .word ['2'] 27 28] 16 29
      "f(1, // )\n 2)".toList, .word ['A', '/'] 31 33]
    parse text none "K".toList = .ok ⟨[layer], 35⟩ ∧
      parse "K(f(1, // )\n 2), A/)".toList none "K".toList =
        .ok ⟨[[.call ['f'] [.word ['1'] 4 5, .word ['2'] 13 14] 2 15 "f(1, // )\n 2)".toList,
          .word ['A', '/'] 17 19]], 20⟩ := by
  intro text layer
  have hparse : parse text none "K".toList = .ok ⟨[layer], 35⟩ := by decide +kernel
  exact ⟨hparse, (parse_listing hparse (List.mem_singleton_self layer)).1⟩

end Keymap
