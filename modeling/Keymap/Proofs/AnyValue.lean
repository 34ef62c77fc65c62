import Keymap.Proofs.Scan.Settled
import Keymap.Proofs.SetKey

/-!
# Arbitrary values

Nothing is asked of the value that a key is set to but that the edited text parses. What the edited
text then says about the keys before the edited one is what the text said before. Of the keys behind
it, the same holds as long as the value is contained: parentheses and comments that it opens end
in it, and it ends none that the text around it has opened.

## Key results

- `Site.exists_closed` — the keys before a site are read whatever stands at the site
- `setKey_of_any` — what an edited text parses to, for any value
- `setKey_reshapes` — values that are not contained may change the number of layers or keys
-/

namespace Keymap

/-! ## Contents -/

namespace Outline

/-- The contents of all keys, layer by layer. -/
def contents (outline : Outline) : List (List Text) :=
  outline.layers.map (·.map Node.content)

/-- The contents of all keys, with those of one key replaced by any number of others. -/
def contentsWith (outline : Outline) (layer key : Nat) (cells : List Text) : List (List Text) :=
  outline.contents.modify layer fun row => row.take key ++ cells ++ row.drop (key + 1)

/-- The contents are as many as the keys. -/
theorem length_of_mem_contents {outline : Outline} {size : Nat}
    (h : ∀ row ∈ outline.layers, row.length = size) :
    ∀ row ∈ outline.contents, row.length = size := by
  intro row hrow
  obtain ⟨keys, hkeys, rfl⟩ := List.mem_map.mp hrow
  rw [List.length_map, h keys hkeys]

/-- Keys before a place are found in the same way if only what follows them differs. -/
theorem key?_congr {a b : Outline} {first later later' : List (List Key)}
    {before more more' : List Key} (ha : a.layers = first ++ (before ++ more) :: later)
    (hb : b.layers = first ++ (before ++ more') :: later') {layer key : Int}
    (h : layer < first.length ∨ layer = first.length ∧ key < before.length) :
    a.key? layer key = b.key? layer key := by
  by_cases hnonneg : 0 ≤ layer ∧ 0 ≤ key
  · obtain ⟨l, rfl⟩ := Int.eq_ofNat_of_zero_le hnonneg.1
    obtain ⟨k, rfl⟩ := Int.eq_ofNat_of_zero_le hnonneg.2
    rw [key?_natCast, key?_natCast, ha, hb]
    -- An earlier layer is the same, and so is an earlier key of this layer.
    rcases h with hl | ⟨hl, hk⟩
    · have hl' : l < first.length := by omega
      rw [List.getElem?_append_left hl', List.getElem?_append_left hl']
    · obtain rfl : l = first.length := by omega
      have hk' : k < before.length := by omega
      simp only [List.getElem?_append_right (Nat.le_refl _), Nat.sub_self, List.getElem?_cons_zero,
        Option.bind_some, List.getElem?_append_left hk']
  · rw [key?, key?, if_neg hnonneg, if_neg hnonneg]

/-- There is a key at a place if anything follows what is before the place. -/
theorem isSome_key? {a : Outline} {first later : List (List Key)} {before more : List Key}
    (ha : a.layers = first ++ (before ++ more) :: later) (hne : more ≠ []) :
    (a.key? first.length before.length).isSome = true := by
  obtain ⟨node, more, rfl⟩ := List.exists_cons_of_ne_nil hne
  rw [key?_natCast, ha, List.getElem?_append_right (Nat.le_refl _), Nat.sub_self,
    List.getElem?_cons_zero, Option.bind_some, List.getElem?_append_right (Nat.le_refl _),
    Nat.sub_self]
  rfl

end Outline

/-- A value is contained if it is balanced together with the trivia behind the place where it ends,
up to the next delimiter. -/
def Contained (text : Text) (stop : Nat) (value : Text) : Prop :=
  ∃ trivia d rest, text.drop stop = trivia ++ d :: rest ∧ Trivia trivia ∧ isDelimiter d = true ∧
    Balanced (value ++ trivia)

/-! ## Reading up to a site -/

namespace Site

variable {opener : Text} {site : Site} {old : Argument Token} {size : Nat}

/-- The layer of the site is read up to the place of the token. -/
theorem exists_awaits [Machine] (h : (site.fill old).Fits opener size) :
    ∃ t : State, (State.initial ((passagesText opener site.first).length + site.gap.length +
        opener.length)).Reads (site.before.leading ++ old.before) t ∧
      t.Awaits (site.keysBefore opener) := by
  have hlayer := h.passages ⟨site.gap, site.before ++ old :: site.after⟩ (by simp [Site.fill])
  obtain ⟨hbefore, -⟩ := (ArgumentList.fit_append ..).mp hlayer.args
  have hdepth := hlayer.depth
  rw [ArgumentList.keys_append, Node.depthAll_append, Nat.max_le] at hdepth
  rw [keysBefore, marker, List.length_append, List.length_singleton, ← Nat.add_assoc]
  exact State.Awaits.of_leading _ hbefore hdepth.1 (Site.Fits.arg h).1

/-- If a text that goes on with anything behind the place of the token is swept without a fault, the
layers before the site are found, and then a layer that begins with the keys before the site. -/
theorem exists_closed [Machine] (h : (site.fill old).Fits opener size) {behind : Text}
    (hsweep : (sweep opener 0 (site.textBefore opener ++ old.before ++ behind)).failure = none) :
    ∃ (t : State) (closed : State.Closed), t.Awaits (site.keysBefore opener) ∧
      t.scan behind = .ok closed ∧
      (sweep opener 0 (site.textBefore opener ++ old.before ++ behind)).found.map (·.keys) =
        site.layersBefore opener ++
          closed.keys :: (sweep opener closed.stop closed.rest).found.map (·.keys) := by
  obtain ⟨t, hreads, hawaits⟩ := exists_awaits h
  have hlayer := h.passages ⟨site.gap, site.before ++ old :: site.after⟩ (by simp [Site.fill])
  have hfirst : ∀ passage ∈ site.first, passage.Fits opener := fun passage hmem =>
    h.passages passage (by simp [Site.fill, hmem])
  -- Up to the old key the text is the first passages, a marker, and the arguments before the key.
  have htext : site.textBefore opener ++ old.before ++ behind =
      passagesText opener site.first ++ (site.gap ++ marker opener ++
        (site.before.leading ++ old.before ++ behind)) := by
    simp [textBefore]
  rw [htext] at hsweep ⊢
  obtain ⟨closed, hscan, hfound⟩ := sweep_passages_reads hfirst hlayer.gap hreads hsweep
  refine ⟨t, closed, hawaits, hscan, ?_⟩
  rw [hfound, List.map_append]
  rfl

/-- The contents of the keys of a source with an argument at the site. -/
theorem contents_fill (opener : Text) (site : Site) (arg : Argument Token) :
    ((site.fill arg).outline opener).contents =
      site.first.map (·.args.map (·.token.text)) ++
        (site.before.map (·.token.text) ++ arg.token.text :: site.after.map (·.token.text)) ::
        site.later.map (·.args.map (·.token.text)) := by
  rw [Outline.contents, Source.outline, List.map_map]
  exact (map_content_invocations opener 0 _).trans (by simp [fill])

/-- The contents of a key are replaced between those before and after the site. -/
theorem contentsWith_fill (opener : Text) (site : Site) (arg : Argument Token)
    (cells : List Text) :
    ((site.fill arg).outline opener).contentsWith site.first.length site.before.length cells =
      site.first.map (·.args.map (·.token.text)) ++
        (site.before.map (·.token.text) ++ cells ++ site.after.map (·.token.text)) ::
        site.later.map (·.args.map (·.token.text)) := by
  have hfirst : site.first.length =
      (site.first.map (·.args.map (·.token.text))).length := by simp
  have hbefore : site.before.length = (site.before.map (·.token.text)).length := by simp
  rw [Outline.contentsWith, contents_fill, List.modify_eq_take_drop, hfirst, hbefore,
    List.take_left, List.drop_left, List.modifyHead_cons, List.take_left, ← List.drop_drop,
    List.drop_left]
  rfl

/-- A source with several layers has a passage besides that of the site. -/
theorem exists_other_of_layerCount
    (h : 1 < ((site.fill old).outline opener).layerCount) :
    ∃ passage, passage ∈ (site.fill old).passages ∧
      (passage ∈ site.first ∨ passage ∈ site.later) := by
  have hcount : ((site.fill old).outline opener).layerCount =
      site.first.length + (site.later.length + 1) := by
    simp [Outline.layerCount, Source.outline, fill]
  cases hfirst : site.first with
  | cons passage first => exact ⟨passage, by simp [fill, hfirst], .inl (by simp)⟩
  | nil =>
    cases hlater : site.later with
    | cons passage later => exact ⟨passage, by simp [fill, hlater], .inr (by simp)⟩
    | nil =>
      rw [hcount, hfirst, hlater] at h
      exact absurd h (Nat.lt_irrefl 1)

/-- What is read behind the place of the token, if a contained value stands there: the value's own
keys, and the same contents as before. -/
theorem contents_of_contained [Machine] (h : (site.fill old).Fits opener size) {value : Text}
    (hcontained : Contained ((site.fill old).text opener)
      ((site.textBefore opener).length + old.before.length + old.token.text.length) value)
    {t : State} (hawaits : t.Awaits (site.keysBefore opener)) {closed : State.Closed}
    (hscan : t.scan (value ++ (old.after ++ site.textAfter opener)) = .ok closed) :
    ∃ cells, cells ≠ [] ∧
      (closed.keys :: (sweep opener closed.stop closed.rest).found.map (·.keys)).map
          (·.map Node.content) =
        (site.before.map (·.token.text) ++ cells ++ site.after.map (·.token.text)) ::
          site.later.map (·.args.map (·.token.text)) := by
  obtain ⟨trivia, d, rest, hdrop, htrivia, hd, hbalanced⟩ := hcontained
  have hlayer := h.passages ⟨site.gap, site.before ++ old :: site.after⟩ (by simp [Site.fill])
  obtain ⟨-, hafter⟩ := (ArgumentList.fit_append ..).mp hlayer.args
  obtain ⟨hold, hafter⟩ := (ArgumentList.fit_cons ..).mp hafter
  -- The trivia are those of the token that the value replaces.
  have hbehind : ((site.fill old).text opener).drop ((site.textBefore opener).length +
      old.before.length + old.token.text.length) = old.after ++ site.textAfter opener := by
    rw [text_fill, Argument.text, ← List.length_append, ← List.length_append]
    simp only [← List.append_assoc]
    rw [List.append_assoc _ old.after, List.drop_left]
  rw [hbehind, textAfter] at hdrop
  obtain rfl := Trivia.eq_of_append hold.2.2 htrivia (isDelimiter_closer site.after) hd
    (by simpa using hdrop)
  have hdepth : Node.depthAll (site.after.keys 0) ≤ nestingLimit := by
    have hall := hlayer.depth
    rw [ArgumentList.keys_append, Node.depthAll_append, Nat.max_le, ArgumentList.keys_cons,
      Node.depthAll, Nat.max_le] at hall
    rw [ArgumentList.depthAll_keys _ 0]
    exact hall.2.2
  -- Behind the value the rest of the layer is read, and then the layers behind it.
  have hbody : value ++ (old.after ++ site.textAfter opener) = value ++ old.after ++
      closer site.after :: (site.after.text ++ (passagesText opener site.later ++ site.tail)) := by
    simp [textAfter]
  rw [hbody] at hscan
  obtain ⟨more, hne, rfl⟩ := hawaits.scan_balanced hbalanced hafter hdepth hscan
  have hlater : ∀ passage ∈ site.later, passage.Fits opener := fun passage hmem =>
    h.passages passage (by simp [Site.fill, hmem])
  refine ⟨more.map Node.content, by simpa using hne, ?_⟩
  rw [(sweep_eq_iff ..).mpr ⟨site.later, site.tail, rfl, hlater, h.tail, rfl⟩, List.map_cons,
    List.map_map, List.map_append, List.map_append, ArgumentList.map_content_keys, keysBefore,
    ArgumentList.map_content_keys]
  exact congrArg _ (map_content_invocations opener _ site.later)

/-- What replaces the cell of a site is one cell, if all layers have one size and it is known that
this is the old one, from a count or from another layer. -/
theorem length_eq_one [Machine] {outline : Outline} {cells : List Text}
    (h : (site.fill old).Fits opener size)
    (hsizes : ∀ row ∈ outline.layers, row.length = outline.keyCount)
    (hcontents : outline.contents = ((site.fill old).outline opener).contentsWith
      site.first.length site.before.length cells)
    (hfixed : outline.keyCount = size ∨ 1 < ((site.fill old).outline opener).layerCount) :
    cells.length = 1 := by
  have hrow := Outline.length_of_mem_contents hsizes
  rw [hcontents, Site.contentsWith_fill] at hrow
  have hsize : outline.keyCount = size := by
    refine hfixed.elim id fun hmany => ?_
    -- Another layer is as it was, and the edited one has as many keys.
    obtain ⟨passage, hpassage, hother⟩ := Site.exists_other_of_layerCount hmany
    have hlength := hrow (passage.args.map (·.token.text)) (by
      rcases hother with hother | hother
      · exact List.mem_append_left _ (List.mem_map_of_mem hother)
      · exact List.mem_append_right _ (List.mem_cons_of_mem _ (List.mem_map_of_mem hother)))
    rw [← hlength, List.length_map, h.size passage hpassage]
  have hold := h.size ⟨site.gap, site.before ++ old :: site.after⟩ (by simp [Site.fill])
  have hnew := hrow _ (List.mem_append_right _ List.mem_cons_self)
  simp only [List.length_append, List.length_cons, List.length_map] at hold hnew
  omega

end Site

/-! ## Setting a key to any value -/

/-- Setting a key to any value at all gives a text with that value in the place of the key. The text
parses, with the expected number of keys in every layer, and the keys before the edited one are what
they were. If the value is contained, those behind it have the contents that they had, and the value
is one key unless the layer is the only one and any number of keys is accepted. -/
theorem setKey_of_any [Machine] {text value edited opener : Text} {keyCount : Option Int}
    {outline : Outline} {layer key : Int} {node : Key}
    (hparse : parse text keyCount opener = .ok outline)
    (hkey : outline.key? layer key = some node)
    (hset : setKey text layer key value keyCount opener = .ok edited) :
    edited = text.splice node.offset node.stop value ∧
      ∃ outline', parse edited keyCount opener = .ok outline' ∧
        (∀ row ∈ outline'.layers, row.length = outline'.keyCount) ∧
        (∀ expected ∈ keyCount, expected = outline'.keyCount) ∧
        (∀ l k, l < layer ∨ l = layer ∧ k < key → outline'.key? l k = outline.key? l k) ∧
        (outline'.key? layer key).isSome = true ∧
        (Contained text node.stop value → ∃ cells, cells ≠ [] ∧
          outline'.contents = outline.contentsWith layer.toNat key.toNat cells ∧
          (keyCount ≠ none ∨ 1 < outline.layerCount → cells.length = 1)) := by
  obtain ⟨hedited, outline', hparse'⟩ := (setKey_eq_ok_iff value edited hparse hkey).mp hset
  -- The text is that of a source, and the key stands at a site of it.
  obtain ⟨source, size, hfits, hcount, rfl, rfl⟩ := (parse_eq_ok_iff ..).mp hparse
  obtain ⟨site, old, rfl, rfl, rfl, rfl⟩ := Source.exists_site hkey
  rw [Node.replaceIn, Token.offset_key, Token.content_key] at hedited hparse'
  rw [Token.offset_key, Token.stop_key]
  refine ⟨hedited, outline', by rwa [hedited], ?_⟩
  -- The edited text parses, so its sweep has no failure and closes the layer of the site.
  rw [Site.splice_text, List.append_assoc, parse_eq_ok_iff_outline] at hparse'
  obtain ⟨hfailure, -, houtline, hsizes, hcount'⟩ := (Sweep.outline_eq_ok_iff ..).mp hparse'
  obtain ⟨t, closed, hawaits, hscan, hfound⟩ := Site.exists_closed hfits hfailure
  obtain ⟨more, hne, hkeys⟩ := hawaits.scan_keys hscan
  -- Up to the key, the keys are the old ones. Behind it they are those that the value brings.
  have hlayers' : outline'.layers = site.layersBefore opener ++ (site.keysBefore opener ++ more) ::
      (sweep opener closed.stop closed.rest).found.map (·.keys) := by
    rw [houtline, hfound, hkeys]
  have hlayers := Site.layers_fill opener site old
  refine ⟨hsizes, hcount', ?_, ?_, ?_⟩
  · intro l k hbefore
    exact Outline.key?_congr hlayers' hlayers (by simpa using hbefore)
  · simpa using Outline.isSome_key? hlayers' hne
  · intro hcontained
    -- A value that stays in its place leaves all keys but one, and the layers behind, as they were.
    obtain ⟨cells, hcells, hrows⟩ := Site.contents_of_contained hfits hcontained hawaits hscan
    have hcontents : outline'.contents =
        ((site.fill old).outline opener).contentsWith site.first.length site.before.length
          cells := by
      rw [Site.contentsWith_fill, Outline.contents, houtline, hfound, List.map_append, hrows,
        Site.layersBefore, List.map_map]
      exact congrArg (· ++ _) (map_content_invocations opener 0 site.first)
    refine ⟨cells, hcells, hcontents, fun hfixed => ?_⟩
    -- If the sizes are fixed, by a count or by another layer, the value has brought one key.
    refine Site.length_eq_one hfits hsizes hcontents (hfixed.imp_left fun hexpected => ?_)
    obtain ⟨expected, rfl⟩ := Option.ne_none_iff_exists'.mp hexpected
    exact Int.ofNat_inj.mp ((hcount' expected rfl).symm.trans (hcount expected rfl))

open Usual

/-- A call in the place of a word, with another layer behind it. -/
theorem setKey_any_call :
    ∃ outline' cells, parse "K(A, f(1) /* b */) K(C, D)".toList none "K".toList = .ok outline' ∧
      cells.length = 1 ∧
      outline'.contents = ["A".toList :: cells, ["C".toList, "D".toList]] := by
  have hparse : parse "K(A, B /* b */) K(C, D)".toList none "K".toList =
      .ok ⟨[[.word "A".toList 2 3, .word "B".toList 5 6],
        [.word "C".toList 18 19, .word "D".toList 21 22]], 23⟩ := by decide +kernel
  have hkey : Outline.key? ⟨[[.word "A".toList 2 3, .word "B".toList 5 6],
      [.word "C".toList 18 19, .word "D".toList 21 22]], 23⟩ 0 1 =
      some (.word "B".toList 5 6) := by decide +kernel
  have hset : setKey "K(A, B /* b */) K(C, D)".toList 0 1 "f(1)".toList none "K".toList =
      .ok "K(A, f(1) /* b */) K(C, D)".toList := by decide +kernel
  obtain ⟨-, outline', hparse', -, -, -, -, hcontents⟩ := setKey_of_any hparse hkey hset
  have hcomment : Trivia " /* b */".toList :=
    .blank rfl (@Trivia.block " b ".toList [] (by decide) .nil)
  have hbalanced : Balanced ("f(1)".toList ++ " /* b */".toList) :=
    .cons (by decide) (.nest (.cons (by decide) .nil) (hcomment.balanced_append .nil))
  obtain ⟨cells, -, hcells, hone⟩ :=
    hcontents ⟨" /* b */".toList, ')', " K(C, D)".toList, rfl, hcomment, rfl, hbalanced⟩
  refine ⟨outline', cells, hparse', hone (.inr (by decide)), ?_⟩
  simpa [Outline.contentsWith, Outline.contents, Node.content] using hcells

/-- Values that are not contained may end the layer and begin another one, and may turn keys behind
them into part of a comment, whatever number of keys is expected. A value with a comma may add a
key to the only layer. -/
theorem setKey_reshapes :
    (setKey "K(X)".toList 0 0 "A) K(B".toList (some 1) "K".toList = .ok "K(A) K(B)".toList ∧
        (parse "K(X)".toList (some 1) "K".toList).map Outline.contents = .ok [["X".toList]] ∧
        (parse "K(A) K(B)".toList (some 1) "K".toList).map Outline.contents =
          .ok [["A".toList], ["B".toList]]) ∧
      (setKey "K(X, Y /* */)".toList 0 0 "A, B /*".toList (some 2) "K".toList =
          .ok "K(A, B /*, Y /* */)".toList ∧
        (parse "K(X, Y /* */)".toList (some 2) "K".toList).map Outline.contents =
          .ok [["X".toList, "Y".toList]] ∧
        (parse "K(A, B /*, Y /* */)".toList (some 2) "K".toList).map Outline.contents =
          .ok [["A".toList, "B".toList]]) ∧
      (setKey "K(X)".toList 0 0 "A, B".toList none "K".toList = .ok "K(A, B)".toList ∧
        (parse "K(X)".toList none "K".toList).map Outline.contents = .ok [["X".toList]] ∧
        (parse "K(A, B)".toList none "K".toList).map Outline.contents =
          .ok [["A".toList, "B".toList]]) := by
  refine ⟨⟨?_, ?_, ?_⟩, ⟨?_, ?_, ?_⟩, ⟨?_, ?_, ?_⟩⟩ <;> decide +kernel

end Keymap
