import Keymap.Edit
import Keymap.Proofs.Site
import Keymap.Proofs.Standalone

/-!
# Setting a key

A value that stands alone as one key of a layer may be put in the place of any key of any source.
The source then parses again, with the value's own key in that place and all other keys as they
were. Only what comes directly behind the replaced key can be in the way, if it makes a pair with
the end of the value.

## Key results

- `Argument.Fits.replace` — an argument that fits may take the place of a token
- `setKey_of_standalone` — setting a key to such a value, and what the result parses to
-/

namespace Keymap

/-! ## Arguments in the place of a token -/

/-- The argument with a new one in the place of its token. -/
def Argument.replace (old new : Argument Token) : Argument Token :=
  ⟨old.before ++ new.before, new.token, new.after ++ old.after⟩

/-- An argument that fits may take the place of a token, unless its end makes a pair with what
comes behind the token. -/
theorem Argument.Fits.replace {old new : Argument Token} (hold : old.Fits) (hnew : new.Fits)
    (hpair : ∀ c ∈ new.text.getLast?, ∀ d ∈ old.after.head?, isPair c d = false) :
    (old.replace new).Fits := by
  obtain ⟨hbefore, -, hafter⟩ := hold
  obtain ⟨hbefore', htoken, hafter'⟩ := hnew
  refine ⟨hbefore.append hbefore', htoken.append_trivia hafter' hafter ?_, hafter'.append hafter⟩
  intro hnil c hc d hd
  refine hpair c ?_ d hd
  rw [Argument.text, hnil, List.append_nil, List.getLast?_append, Option.mem_def.mp hc]
  rfl

/-! ## Editing a source -/

namespace Site

variable {opener : Text} {site : Site} {old new : Argument Token}

/-- Replacing the characters of a token leaves the text before and after it. -/
theorem splice_text (opener : Text) (site : Site) (old : Argument Token) (value : Text) :
    ((site.fill old).text opener).splice ((site.textBefore opener).length + old.before.length)
        ((site.textBefore opener).length + old.before.length + old.token.text.length) value =
      site.textBefore opener ++ old.before ++ value ++ (old.after ++ site.textAfter opener) := by
  have hsplit : (site.fill old).text opener =
      (site.textBefore opener ++ old.before) ++ old.token.text ++
        (old.after ++ site.textAfter opener) := by
    simp [text_fill, Argument.text]
  rw [hsplit, ← List.length_append, Text.splice_append]

/-- Replacing the characters of a token gives the source with the new argument in its place. -/
theorem splice_text_fill (opener : Text) (site : Site) (old new : Argument Token) :
    ((site.fill old).text opener).splice ((site.textBefore opener).length + old.before.length)
        ((site.textBefore opener).length + old.before.length + old.token.text.length) new.text =
      (site.fill (old.replace new)).text opener := by
  rw [splice_text, text_fill]
  simp [Argument.text, Argument.replace]

/-- The character behind the token of an argument. -/
theorem getElem?_text_fill (opener : Text) (site : Site) {d : Char} (hd : d ∈ old.after.head?) :
    ((site.fill old).text opener)[(site.textBefore opener).length + old.before.length +
      old.token.text.length]? = some d := by
  obtain ⟨after, hafter⟩ := List.head?_eq_some_iff.mp hd
  have hsplit : (site.fill old).text opener =
      (site.textBefore opener ++ old.before ++ old.token.text) ++
        (d :: (after ++ site.textAfter opener)) := by
    simp [text_fill, Argument.text, hafter]
  have hlength : (site.textBefore opener).length + old.before.length + old.token.text.length =
      (site.textBefore opener ++ old.before ++ old.token.text).length := by
    simp only [List.length_append]
  rw [hsplit, hlength, List.getElem?_append_right (Nat.le_refl _), Nat.sub_self,
    List.getElem?_cons_zero]

/-- The source with a new argument in the place of a token fits. -/
theorem Fits.replace [Machine] {size : Nat} (h : (site.fill old).Fits opener size) (hnew : new.Fits)
    (hdepth : (new.token.key 0).depth ≤ nestingLimit)
    (hpair : ∀ c ∈ new.text.getLast?, ∀ d ∈ old.after.head?, isPair c d = false) :
    (site.fill (old.replace new)).Fits opener size :=
  Fits.fill h ((Fits.arg h).replace hnew hpair) hdepth

/-- The length of a source changes with that of the text in the place of a token. -/
theorem length_text_replace (old new : Argument Token) :
    (old.replace new).text.length + old.token.text.length = old.text.length + new.text.length := by
  simp only [Argument.replace, Argument.text, List.length_append]
  omega

end Site

section

variable [Machine]

/-- Setting a key at a site puts the new argument in its place, if the result fits. -/
theorem setKey_fill {opener : Text} {keyCount : Option Int} {size : Nat} {site : Site}
    {old new : Argument Token} (hfits : (site.fill old).Fits opener size)
    (hfits' : (site.fill (old.replace new)).Fits opener size)
    (hcount : ∀ expected ∈ keyCount, expected = size) :
    setKey ((site.fill old).text opener) site.first.length site.before.length new.text keyCount
        opener = .ok ((site.fill (old.replace new)).text opener) := by
  have hparse := (parse_eq_ok_iff _ keyCount opener _).mpr ⟨_, _, hfits, hcount, rfl, rfl⟩
  have hparse' := (parse_eq_ok_iff _ keyCount opener _).mpr ⟨_, _, hfits', hcount, rfl, rfl⟩
  have hedit := Site.splice_text_fill opener site old new
  rw [setKey_eq_ok_iff _ _ hparse (Site.key?_fill opener site old), Node.replaceIn,
    Token.offset_key, Token.content_key, hedit]
  exact ⟨rfl, _, hparse'⟩

/-- Setting a key to a value that stands alone. The result is the text with the characters of the
key replaced by the value, and it parses to as many layers and keys. In the place of the key stands
that of the value, keys before it stay, and keys after it move with the text behind the value. -/
theorem setKey_of_standalone {text value opener : Text} {keyCount : Option Int}
    {outline : Outline} {layer key : Int} {node alone : Key}
    (hparse : parse text keyCount opener = .ok outline)
    (hkey : outline.key? layer key = some node) (hvalue : Standalone opener value alone)
    (hslash : ¬ (value.getLast? = some '/' ∧ text[node.stop]? = some '/'))
    (hbackslash : ¬ (value.getLast? = some '\\' ∧ text[node.stop]? = some '\n')) :
    setKey text layer key value keyCount opener =
        .ok (text.splice node.offset node.stop value) ∧
      ∃ edited, parse (text.splice node.offset node.stop value) keyCount opener = .ok edited ∧
        edited.layers.map List.length = outline.layers.map List.length ∧
        edited.key? layer key = some (alone.shift (marker opener).length node.offset) ∧
        (∀ l k other, outline.key? l k = some other → ¬ (l = layer ∧ k = key) →
          other.stop ≤ node.offset ∧ edited.key? l k = some other ∨
          node.stop ≤ other.offset ∧
            edited.key? l k = some (other.shift node.stop (node.offset + value.length))) ∧
        edited.stop = outline.stop + (node.offset + value.length) - node.stop := by
  obtain ⟨source, size, hfits, hcount, rfl, rfl⟩ := (parse_eq_ok_iff ..).mp hparse
  obtain ⟨site, old, rfl, rfl, rfl, rfl⟩ := Source.exists_site hkey
  obtain ⟨new, hnew, hdepth, rfl, rfl⟩ := (standalone_iff ..).mp hvalue
  rw [Token.stop_key] at hslash hbackslash
  -- What comes behind the key makes no pair with the end of the value.
  have hpair : ∀ c ∈ new.text.getLast?, ∀ d ∈ old.after.head?, isPair c d = false := by
    intro c hc d hd
    rw [← Bool.not_eq_true]
    intro hjoined
    have hbehind := Site.getElem?_text_fill opener site hd
    rcases (Site.Fits.arg hfits).2.2.eq_of_isPair hd hjoined with ⟨rfl, rfl⟩ | ⟨rfl, rfl⟩
    · exact hslash ⟨hc, hbehind⟩
    · exact hbackslash ⟨hc, hbehind⟩
  -- So the source with the value in the place of the key fits, and that is the edited text.
  have hfits' := Site.Fits.replace hfits hnew hdepth hpair
  have hparse' := (parse_eq_ok_iff _ keyCount opener _).mpr ⟨_, _, hfits', hcount, rfl, rfl⟩
  have hlength := Site.length_text_replace old new
  rw [Token.offset_key, Token.stop_key, Site.splice_text_fill]
  refine ⟨setKey_fill hfits hfits' hcount, _, hparse', Site.map_length_layers_fill .., ?_, ?_, ?_⟩
  · have hkey' := Site.key?_fill opener site (old.replace new)
    rw [Argument.replace, List.length_append, ← Nat.add_assoc] at hkey'
    rw [Token.shift_key]
    exact hkey'
  · intro l k other hother hne
    -- The site begins before the trivia in front of the key and ends behind those after it.
    rcases Site.key?_fill_of_ne (old.replace new) hother hne with ⟨hle, hsame⟩ | ⟨hle, hmoved⟩
    · exact .inl ⟨by omega, hsame⟩
    · refine .inr ⟨?_, ?_⟩
      · simp only [Argument.text, List.length_append] at hle
        omega
      · rw [hmoved, Node.shift_congr]
        simp only [Argument.text, List.length_append] at hlength ⊢
        omega
  · rw [Site.stop_fill, Site.stop_fill]
    simp only [Argument.text, List.length_append] at hlength ⊢
    omega

end

open Usual

/-- A word is replaced by a call. -/
theorem setKey_word_by_call :
    setKey "K(A, B /* b */)".toList 0 1 "f(1)".toList none "K".toList =
      .ok "K(A, f(1) /* b */)".toList := by
  have hparse : parse "K(A, B /* b */)".toList none "K".toList =
      .ok ⟨[[.word "A".toList 2 3, .word "B".toList 5 6]], 15⟩ := by cbv
  have hvalue : Standalone "K".toList "f(1)".toList
      (.call "f".toList [.word "1".toList 4 5] 2 6 "f(1)".toList) := by cbv
  have hkey : Outline.key? ⟨[[.word "A".toList 2 3, .word "B".toList 5 6]], 15⟩ 0 1 =
      some (.word "B".toList 5 6) := by cbv
  exact (setKey_of_standalone hparse hkey hvalue (by decide) (by decide)).1

end Keymap
