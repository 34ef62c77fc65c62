import Keymap.Proofs.Layout

/-!
# Reading again

What a text says may be said by another text, in which the same names and words stand at other
places. A key is read again by moving its two ends and by taking the content of each call from the
other text.

## Key results

- `Node.depth_reread` — reading again keeps the depth of a key
- `Token.reread_key`, `ArgumentList.rereadAll_keys` — what is moved as a whole means what is read
  again
- `map_reread_invocations` — and so do passages
-/

namespace Keymap

namespace Node

mutual

/-- The key as it stands in another text, with its beginning and its end moved there. -/
def reread (text : Text) (f g : Nat → Nat) : Key → Key
  | .word content offset stop => .word content (f offset) (g stop)
  | .call name params offset stop _ =>
    .call name (rereadAll text f g params) (f offset) (g stop) (text.slice (f offset) (g stop))
  | .strange value => nomatch value

/-- Several keys as they stand in another text. -/
def rereadAll (text : Text) (f g : Nat → Nat) : List Key → List Key
  | [] => []
  | key :: rest => reread text f g key :: rereadAll text f g rest

end

theorem rereadAll_eq_map (text : Text) (f g : Nat → Nat) (keys : List Key) :
    rereadAll text f g keys = keys.map (reread text f g) := by
  induction keys with
  | nil => rfl
  | cons key rest ih => rw [rereadAll, ih, List.map_cons]

mutual

/-- Reading again keeps the depth of a key. -/
theorem depth_reread (text : Text) (f g : Nat → Nat) (key : Key) :
    (key.reread text f g).depth = key.depth := by
  match key with
  | .word .. => rfl
  | .call name params offset stop content =>
    rw [reread, depth, depth, depthAll_rereadAll text f g params]
  | .strange value => exact nomatch value

theorem depthAll_rereadAll (text : Text) (f g : Nat → Nat) (keys : List Key) :
    depthAll (rereadAll text f g keys) = depthAll keys := by
  match keys with
  | [] => rfl
  | key :: rest =>
    rw [rereadAll, depthAll, depthAll, depth_reread text f g key, depthAll_rereadAll text f g rest]

end

end Node

/-- The outline as it stands in another text. -/
def Outline.reread (text : Text) (f g : Nat → Nat) (outline : Outline) : Outline :=
  ⟨outline.layers.map (·.map (Node.reread text f g)), g outline.stop⟩

/-! ## Moving -/

/-- A part of a text that stands at `pos` stands in another text at `pos'`, and is moved there: the
offsets at which something begins by the first function, and those at which something ends by the
second. -/
structure Moved (text : Text) (f g : Nat → Nat) (pos pos' : Nat) (part : Text) : Prop where
  holds : text.Holds pos' part
  start : ∀ n, n < part.length → f (pos + n) = pos' + n
  stop : ∀ n, 0 < n → n ≤ part.length → g (pos + n) = pos' + n

namespace Moved

variable {text : Text} {f g : Nat → Nat} {pos pos' : Nat}

/-- What stands within a part is moved with it. -/
theorem within {before part after : Text}
    (h : Moved text f g pos pos' (before ++ part ++ after)) :
    Moved text f g (pos + before.length) (pos' + before.length) part where
  holds := by
    have hholds := h.holds
    rw [List.append_assoc, Text.holds_append_iff, Text.holds_append_iff] at hholds
    exact hholds.2.1
  start n hn := by
    rw [Nat.add_assoc, Nat.add_assoc]
    exact h.start (before.length + n) (by simp only [List.length_append]; omega)
  stop n hpos hn := by
    rw [Nat.add_assoc, Nat.add_assoc]
    exact h.stop (before.length + n) (by omega) (by simp only [List.length_append]; omega)

/-- The end of a part is moved with it. -/
theorem suffix {before part : Text} (h : Moved text f g pos pos' (before ++ part)) :
    Moved text f g (pos + before.length) (pos' + before.length) part := by
  rw [← List.append_nil (before ++ part)] at h
  exact h.within

/-- The two ends of a part are moved. -/
theorem ends {part : Text} (h : Moved text f g pos pos' part) (hne : part ≠ []) :
    f pos = pos' ∧ g (pos + part.length) = pos' + part.length := by
  have hlength := List.length_pos_iff.mpr hne
  exact ⟨h.start 0 hlength, h.stop _ hlength (Nat.le_refl _)⟩

end Moved

variable {text : Text} {f g : Nat → Nat}

/-- A call whose ends are moved means the key that is read again, if its arguments do. -/
theorem Token.reread_call {pos pos' : Nat} {name blanks : Text} {args args' : ArgumentList}
    (hstart : f pos = pos')
    (hstop : g (pos + (Token.call name blanks args).text.length) =
      pos' + (Token.call name blanks args').text.length)
    (hholds : text.Holds pos' (Token.call name blanks args').text)
    (hargs : Node.rereadAll text f g (args.keys (pos + name.length + blanks.length + 1)) =
      args'.keys (pos' + name.length + blanks.length + 1)) :
    ((Token.call name blanks args).key pos).reread text f g =
      (Token.call name blanks args').key pos' := by
  rw [key, key, Node.reread, hargs, hstart, hstop, hholds.slice]

mutual

/-- A token that is moved as a whole means the key that is read again. -/
theorem Token.reread_key {pos pos' : Nat} {token : Token} {after : Text} (hfits : token.Fits after)
    (h : Moved text f g pos pos' token.text) :
    (token.key pos).reread text f g = token.key pos' := by
  obtain ⟨hstart, hstop⟩ := h.ends (Token.text_ne_nil hfits)
  match token with
  | .word chars =>
    rw [Token.text_word] at hstop
    rw [Token.key, Token.key, Node.reread, hstart, hstop]
  | .call name blanks args =>
    rw [Token.Fits] at hfits
    obtain ⟨-, -, -, -, hfit⟩ := hfits
    have hinner :
        Moved text f g pos pos' ((name ++ blanks ++ ['(']) ++ ArgumentList.text args) := by
      simpa using h
    -- The arguments are moved with the call.
    have hargs := ArgumentList.rereadAll_keys hfit hinner.suffix
    simp only [List.length_append, List.length_singleton, ← Nat.add_assoc] at hargs
    exact Token.reread_call hstart hstop h.holds hargs

/-- Arguments that are moved as a whole mean the keys that are read again. -/
theorem ArgumentList.rereadAll_keys {pos pos' : Nat} {args : ArgumentList} (hfit : args.Fit)
    (h : Moved text f g pos pos' args.text) :
    Node.rereadAll text f g (args.keys pos) = args.keys pos' := by
  match args with
  | [] => rfl
  | ⟨before, token, after⟩ :: rest =>
    rw [ArgumentList.Fit] at hfit
    obtain ⟨-, htoken, -, hrest⟩ := hfit
    rw [ArgumentList.text] at h
    have hlater : Moved text f g pos pos'
        ((before ++ token.text ++ after ++ [closer rest]) ++ ArgumentList.text rest) := by
      simpa using h
    have hlead : (before ++ token.text ++ after ++ [closer rest]).length =
        before.length + token.text.length + after.length + 1 := by
      simp only [List.length_append, List.length_singleton]
    -- The token and the arguments behind it are moved with all of them.
    rw [List.append_assoc] at h
    have hkey := Token.reread_key htoken h.within
    have hkeys := ArgumentList.rereadAll_keys hrest hlater.suffix
    rw [hlead] at hkeys
    rw [ArgumentList.keys, ArgumentList.keys, Node.rereadAll, hkey]
    simp only [Nat.add_assoc] at hkeys ⊢
    rw [hkeys]

end

variable [Machine]

/-- Passages that are moved as a whole have the keys that are read again. -/
theorem map_reread_invocations {opener : Text} {pos pos' : Nat} {passages : List Passage}
    (hfits : ∀ passage ∈ passages, passage.Fits opener)
    (h : Moved text f g pos pos' (passagesText opener passages)) :
    (invocations opener pos passages).map (·.keys.map (Node.reread text f g)) =
      (invocations opener pos' passages).map (·.keys) := by
  induction passages generalizing pos pos' with
  | nil => rfl
  | cons passage rest ih =>
    obtain ⟨hpassage, hrest⟩ := List.forall_mem_cons.mp hfits
    rw [passagesText_cons] at h
    have hargs := h
    rw [Passage.text] at hargs
    have hkeys := ArgumentList.rereadAll_keys hpassage.args hargs.within
    rw [List.length_append] at hkeys
    rw [invocations, invocations, List.map_cons, List.map_cons, ih hrest h.suffix,
      Passage.invocation, Passage.invocation, Passage.keys, Passage.keys, ← Node.rereadAll_eq_map]
    simp only [Nat.add_assoc] at hkeys ⊢
    rw [hkeys]

end Keymap
