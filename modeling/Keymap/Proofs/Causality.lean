import Keymap.Proofs.AnyValue
import Keymap.Proofs.Concatenation

/-!
# What the beginning of a text decides

A text is read from left to right, and what has been read is not taken back. A layer is decided by
the text up to the parenthesis that closes it, a key by the text up to the comma behind it, and a
fault that a character makes by the text up to that character. Texts that begin with the same
characters agree in all that these decide, wherever in a comment, a word or a call they part.

## Key results

- `sweep_append_failure` — a fault stays, whatever comes behind it
- `sweep_leading` — so do the layers, and the keys of a layer, before any point of a text
- `parse_causal` — what does not depend on the rest of a text
-/

namespace Keymap

/-! ## Faults -/

/-- A sweep that ends with a fault within a layer does so with any text behind it, unless the fault
is that the text ends. -/
theorem sweep_append_failure [Machine] {opener text : Text} {pos : Nat} {failure : Failure}
    (h : (sweep opener pos text).failure = some failure)
    (hcause : failure.fault.cause ≠ .unclosed) (more : Text) :
    (sweep opener pos (text ++ more)).failure = some failure := by
  obtain ⟨passages, gap, body, rfl, hfits, hgap, hscan⟩ := exists_of_sweep_failure h
  have hseek : seek (marker opener) (pos + (passagesText opener passages).length)
      (gap ++ marker opener ++ (body ++ more)) =
      some (pos + (passagesText opener passages).length + gap.length, body ++ more) :=
    (seek_eq_some_iff ..).mpr ⟨gap, rfl, rfl, hgap⟩
  have hscan' := State.scan_error_append more hscan hcause
  rw [List.append_assoc, List.append_assoc (gap ++ marker opener), sweep_passages_append pos hfits,
    sweep_error hseek hscan']

/-- The location of an offset within a text is the same with more text behind it. -/
theorem Location.ofOffset_append {text : Text} {offset : Nat} (h : offset ≤ text.length)
    (more : Text) : ofOffset (text ++ more) offset = ofOffset text offset := by
  have hplace : text.nearest offset = offset := Nat.min_eq_left h
  have hplace' : (text ++ more).nearest offset = offset :=
    Nat.min_eq_left (Nat.le_trans h (by simp))
  simp only [ofOffset, Text.lineBefore, hplace, hplace', List.take_append_of_le_length h]

/-- A decided fault is found with any text behind it, at the same place. -/
theorem parse_append_of_decided [Machine] {text opener : Text} {keyCount : Option Int}
    {e : SyntaxError} (h : parse text keyCount opener = .error e) (hcause : e.cause.IsDecided)
    (more : Text) :
    ∃ e', parse (text ++ more) keyCount opener = .error e' ∧ e'.cause = e.cause ∧
      e'.offset = e.offset ∧ e'.location = e.location := by
  obtain ⟨fault, hfault, rfl⟩ := (parse_eq_error_iff_outline ..).mp h
  replace hcause : fault.cause.IsDecided := hcause
  obtain ⟨failure, hfailure, rfl⟩ := Sweep.failure_of_cause hfault (.inl hcause)
  have hne {cause : Cause} (h : ¬ cause.IsDecided) : failure.fault.cause ≠ cause := fun heq =>
    h (heq ▸ hcause)
  have hoffset := (outline_error_designates hfault (hne id)).lt_length (hne id)
  refine ⟨failure.fault.cause.locate (text ++ more) failure.fault.offset, ?_, rfl, rfl, ?_⟩
  · rw [parse_eq_error_iff_outline]
    refine ⟨failure.fault, ?_, rfl⟩
    rw [Sweep.outline, sweep_append_failure hfailure (hne id) more]
  · exact congrArg some (Location.ofOffset_append (Nat.le_of_lt hoffset) more)

/-! ## Layers and keys -/

/-- Where a text goes on with anything behind some arguments of a layer, each with its comma, and is
swept without a fault, the layers before are found, and then one that begins with those keys. -/
theorem sweep_leading [Machine] {opener gap rest : Text} {first : List Passage}
    {args : ArgumentList} (hfirst : ∀ passage ∈ first, passage.Fits opener)
    (hgap : ¬ marker opener <:+: gap ++ opener)
    (hfit : args.Fit) (hdepth : Node.depthAll (args.keys 0) ≤ nestingLimit)
    (hsweep : (sweep opener 0 (passagesText opener first ++
      (gap ++ marker opener ++ (args.leading ++ rest)))).failure = none) :
    ∃ more stop later, (sweep opener 0 (passagesText opener first ++
        (gap ++ marker opener ++ (args.leading ++ rest)))).found =
      invocations opener 0 first ++
        ⟨(passagesText opener first).length + gap.length,
          args.keys ((passagesText opener first).length + gap.length + opener.length + 1) ++ more,
          stop⟩ :: later := by
  obtain ⟨t, hreads, hawaits⟩ := State.Awaits.of_leading
    ((passagesText opener first).length + gap.length + opener.length) hfit hdepth .nil
  rw [List.append_nil] at hreads
  obtain ⟨closed, hscan, hfound⟩ := sweep_passages_reads hfirst hgap hreads hsweep
  obtain ⟨more, -, hkeys⟩ := hawaits.scan_keys hscan
  exact ⟨more, closed.stop, _, by rw [hfound, hkeys]⟩

/-- The comma at an offset ends the argument of a key: only trivia stand between them. -/
def EndedBy (text : Text) (key : Key) (comma : Nat) : Prop :=
  key.stop ≤ comma ∧ text[comma]? = some ',' ∧ Trivia (text.slice key.stop comma)

/-- What the first `p` characters of a text decide of its layers is so among other layers. -/
structure SettledBy [Machine] (opener text : Text) (p : Nat) (found found' : List Invocation) :
    Prop where
  /-- A layer that is closed within these characters is the same layer, at the same place. -/
  closed : ∀ (n : Nat) (layer : Invocation), found[n]? = some layer → layer.stop ≤ p →
    found'[n]? = some layer
  /-- A layer that is opened within them is opened, and has the keys whose commas are among them. -/
  opened : ∀ (n : Nat) (layer : Invocation), found[n]? = some layer →
    layer.start + opener.length < p →
    ∃ layer', found'[n]? = some layer' ∧ layer'.start = layer.start ∧
      ∀ (k : Nat) (key : Key) (comma : Nat), layer.keys[k]? = some key → EndedBy text key comma →
        comma < p → layer'.keys[k]? = some key

/-- An argument is ended by the comma behind it, if other arguments follow. -/
theorem endedBy_iff {front rest : Text} {arg : Argument Token} {after : ArgumentList}
    {comma : Nat} (hafter : Trivia arg.after) :
    EndedBy (front ++ arg.text ++ closer after :: rest)
        (arg.token.key (front.length + arg.before.length)) comma ↔
      comma = front.length + arg.text.length ∧ closer after = ',' := by
  have htext : front ++ arg.text ++ closer after :: rest =
      (front ++ arg.before ++ arg.token.text) ++ (arg.after ++ closer after :: rest) := by
    simp [Argument.text]
  -- The key ends where its token does, and the trivia behind it run up to what closes the argument.
  have hstop : (arg.token.key (front.length + arg.before.length)).stop =
      (front ++ arg.before ++ arg.token.text).length := by
    rw [Token.stop_key, List.length_append, List.length_append]
  have hlength : front.length + arg.text.length =
      (front ++ arg.before ++ arg.token.text).length + arg.after.length := by
    simp only [Argument.text, List.length_append]
    omega
  rw [EndedBy, htext, hstop, hlength]
  constructor
  · intro hended
    obtain ⟨hle, hcomma, htrivia⟩ := hended
    -- Where the trivia behind the key end is determined.
    obtain ⟨hlt, hget⟩ := List.getElem?_eq_some_iff.mp hcomma
    have hsplit := Text.slice_append_drop ((front ++ arg.before ++ arg.token.text) ++
      (arg.after ++ closer after :: rest)) hle
    rw [List.drop_left, List.drop_eq_getElem_cons hlt, hget] at hsplit
    have hslice := Trivia.eq_of_append hafter htrivia (isDelimiter_closer after) rfl hsplit.symm
    have hwidth := congrArg List.length hslice
    rw [Text.length_slice] at hwidth
    rw [← hslice] at hsplit
    exact ⟨by omega, (List.cons.inj (List.append_cancel_left hsplit)).1.symm⟩
  · rintro ⟨rfl, hcloser⟩
    have hcut : (front ++ arg.before ++ arg.token.text) ++ (arg.after ++ closer after :: rest) =
        (front ++ arg.before ++ arg.token.text) ++ arg.after ++ closer after :: rest :=
      (List.append_assoc ..).symm
    rw [hcut]
    refine ⟨Nat.le_add_right .., ?_, ?_⟩
    · rw [← List.length_append, List.getElem?_append_right (Nat.le_refl _), Nat.sub_self, hcloser]
      rfl
    · rwa [Text.slice_middle]

/-- The same of an argument of a layer. -/
theorem endedBy_iff_of_args {opener gap rest : Text} {first : List Passage}
    {before after : ArgumentList} {arg : Argument Token} {comma : Nat} (hafter : Trivia arg.after) :
    EndedBy (passagesText opener first ++
        (gap ++ marker opener ++ ((before ++ arg :: after).text ++ rest)))
      (arg.token.key ((passagesText opener first).length + gap.length + opener.length + 1 +
        before.leading.length + arg.before.length)) comma ↔
      comma = (passagesText opener first).length + gap.length + opener.length + 1 +
        before.leading.length + arg.text.length ∧ closer after = ',' := by
  let front := passagesText opener first ++ gap ++ marker opener ++ before.leading
  have hfront : (passagesText opener first).length + gap.length + opener.length + 1 +
      before.leading.length = front.length := by
    simp only [front, marker, List.length_append, List.length_singleton]
    omega
  have htext : passagesText opener first ++
      (gap ++ marker opener ++ ((before ++ arg :: after).text ++ rest)) =
      front ++ arg.text ++ closer after :: (after.text ++ rest) := by
    simp [front, ArgumentList.text_append before (List.cons_ne_nil arg after)]
  rw [htext, hfront]
  exact endedBy_iff hafter

/-- A text begins with what another one begins with, as far as they agree. -/
theorem exists_append_of_take_eq {front back other : Text} {p : Nat}
    (h : (front ++ back).take p = other.take p) (hp : front.length ≤ p) :
    ∃ rest, other = front ++ rest := by
  have hfront : front <+: other.take p :=
    h ▸ List.prefix_take_iff.mpr ⟨List.prefix_append front back, hp⟩
  obtain ⟨rest, hrest⟩ := (List.prefix_take_iff.mp hfront).1
  exact ⟨rest, hrest.symm⟩

/-- Arguments up to one that a comma ends are followed by others. -/
theorem ArgumentList.text_of_closer {before after : ArgumentList} {arg : Argument Token}
    (h : closer after = ',') :
    (before ++ arg :: after).text = (before ++ [arg]).leading ++ after.text := by
  rw [text_append before (List.cons_ne_nil arg after), text_cons, h, leading_append]
  simp

section

variable [Machine]

/-- A text that begins as another one does, up to some arguments of a layer, has the layers before
them, and then one that begins with those keys. -/
theorem sweep_leading_of_take {opener gap rest other : Text} {first : List Passage}
    {args : ArgumentList} {p : Nat} (hfirst : ∀ passage ∈ first, passage.Fits opener)
    (hgap : ¬ marker opener <:+: gap ++ opener) (hfit : args.Fit)
    (hdepth : Node.depthAll (args.keys 0) ≤ nestingLimit)
    (htake : (passagesText opener first ++
      (gap ++ marker opener ++ (args.leading ++ rest))).take p = other.take p)
    (hp : (passagesText opener first).length + gap.length + opener.length + 1 +
      args.leading.length ≤ p)
    (hsweep : (sweep opener 0 other).failure = none) :
    ∃ more stop later, (sweep opener 0 other).found = invocations opener 0 first ++
      ⟨(passagesText opener first).length + gap.length,
        args.keys ((passagesText opener first).length + gap.length + opener.length + 1) ++ more,
        stop⟩ :: later := by
  have htext (rest : Text) : passagesText opener first ++
      (gap ++ marker opener ++ (args.leading ++ rest)) =
      (passagesText opener first ++ (gap ++ marker opener ++ args.leading)) ++ rest := by simp
  have hlength :
      (passagesText opener first ++ (gap ++ marker opener ++ args.leading)).length ≤ p := by
    simp only [marker, List.length_append, List.length_singleton]
    omega
  rw [htext] at htake
  obtain ⟨rest', rfl⟩ := exists_append_of_take_eq htake hlength
  rw [← htext] at hsweep ⊢
  exact sweep_leading hfirst hgap hfit hdepth hsweep

/-- A key whose argument ends with a comma within the first characters of a text is a key of the
layer in any text that begins with them and is swept without a fault. -/
theorem getElem?_keys_of_take {opener gap rest other : Text} {first : List Passage}
    {before after : ArgumentList} {arg : Argument Token} {p comma : Nat}
    (hfirst : ∀ passage ∈ first, passage.Fits opener) (hgap : ¬ marker opener <:+: gap ++ opener)
    (hfit : (before ++ arg :: after).Fit)
    (hdepth : Node.depthAll ((before ++ arg :: after).keys 0) ≤ nestingLimit)
    (htake : (passagesText opener first ++
      (gap ++ marker opener ++ ((before ++ arg :: after).text ++ rest))).take p = other.take p)
    (hended : EndedBy (passagesText opener first ++
        (gap ++ marker opener ++ ((before ++ arg :: after).text ++ rest)))
      (arg.token.key ((passagesText opener first).length + gap.length + opener.length + 1 +
        before.leading.length + arg.before.length)) comma)
    (hcomma : comma < p) (hsweep : (sweep opener 0 other).failure = none) {layer : Invocation}
    {later : List Invocation}
    (hfound : (sweep opener 0 other).found = invocations opener 0 first ++ layer :: later) :
    layer.keys[before.length]? =
      some (arg.token.key ((passagesText opener first).length + gap.length + opener.length + 1 +
        before.leading.length + arg.before.length)) := by
  obtain ⟨hbefore, hfit⟩ := (ArgumentList.fit_append ..).mp hfit
  obtain ⟨harg, -⟩ := (ArgumentList.fit_cons ..).mp hfit
  -- The comma stands behind the argument, and other arguments follow it.
  obtain ⟨rfl, hcloser⟩ := (endedBy_iff_of_args harg.2.2).mp hended
  rw [ArgumentList.text_of_closer hcloser, List.append_assoc _ after.text] at htake
  -- So the arguments up to the comma are those of the layer.
  have hfit' : (before ++ [arg]).Fit := (ArgumentList.fit_append ..).mpr
    ⟨hbefore, (ArgumentList.fit_cons ..).mpr ⟨harg, ArgumentList.fit_nil⟩⟩
  have hdepth' : Node.depthAll ((before ++ [arg]).keys 0) ≤ nestingLimit := by
    have happend : before ++ arg :: after = (before ++ [arg]) ++ after := by simp
    rw [happend, ArgumentList.keys_append, Node.depthAll_append, Nat.max_le] at hdepth
    exact hdepth.1
  have hp : (passagesText opener first).length + gap.length + opener.length + 1 +
      (before ++ [arg]).leading.length ≤ p := by
    simp only [ArgumentList.leading_append, ArgumentList.leading_cons, ArgumentList.leading_nil,
      List.length_append, List.length_cons, List.length_nil]
    omega
  obtain ⟨more, stop, later', hfound'⟩ :=
    sweep_leading_of_take hfirst hgap hfit' hdepth' htake hp hsweep
  obtain ⟨rfl, -⟩ := List.cons.inj (List.append_cancel_left (hfound.symm.trans hfound'))
  have hlength : before.length = (before.keys ((passagesText opener first).length + gap.length +
      opener.length + 1)).length := by simp
  rw [ArgumentList.keys_append, ArgumentList.keys_cons, List.append_assoc, hlength,
    List.getElem?_append_right (Nat.le_refl _), Nat.sub_self]
  rfl

omit [Machine] in
/-- The text of a source around the arguments of a passage. -/
theorem Source.text_around {opener : Text} {source : Source} {first later : List Passage}
    {passage : Passage} (h : source.passages = first ++ passage :: later) :
    source.text opener = passagesText opener first ++ (passage.gap ++ marker opener ++
      (passage.args.text ++ (passagesText opener later ++ source.tail))) := by
  simp [text, h, Passage.text]

/-- What the first characters of a source decide of its layers is so in any text that begins with
them and is swept without a fault. -/
theorem Source.Fits.settledBy {opener other : Text} {source : Source} {size p : Nat}
    (h : source.Fits opener size) (htake : (source.text opener).take p = other.take p)
    (hsweep : (sweep opener 0 other).failure = none) :
    SettledBy opener (source.text opener) p (invocations opener 0 source.passages)
      (sweep opener 0 other).found := by
  constructor
  · intro n layer hlayer hstop
    obtain ⟨first, passage, later, hpassages, rfl, rfl⟩ := exists_of_getElem?_invocations hlayer
    have htext : source.text opener = passagesText opener (first ++ [passage]) ++
        (passagesText opener later ++ source.tail) := by
      simp [Source.text, hpassages]
    -- A layer that ends within the common part stands in a common prefix of whole passages.
    have hlength : (passagesText opener (first ++ [passage])).length ≤ p := by
      simpa [Passage.invocation] using hstop
    rw [htext] at htake
    obtain ⟨rest, rfl⟩ := exists_append_of_take_eq htake hlength
    have hfits : ∀ q ∈ first ++ [passage], q.Fits opener := fun q hq =>
      h.passages q (by rw [hpassages]; simp at hq ⊢; tauto)
    rw [sweep_passages_append 0 hfits, invocations_append]
    simp [invocations]
  · intro n layer hlayer hopen
    obtain ⟨first, passage, later, hpassages, rfl, rfl⟩ := exists_of_getElem?_invocations hlayer
    have hpassage := h.passages passage (by rw [hpassages]; simp)
    have hfirst : ∀ q ∈ first, q.Fits opener := fun q hq =>
      h.passages q (by rw [hpassages]; simp [hq])
    have hnumber (found : Invocation) (later' : List Invocation) :
        (invocations opener 0 first ++ found :: later')[first.length]? = some found := by
      rw [List.getElem?_append_right (by simp), length_invocations, Nat.sub_self,
        List.getElem?_cons_zero]
    -- The layer is opened in the other text, too.
    rw [Nat.zero_add] at hopen ⊢
    replace hopen : (passagesText opener first).length + passage.gap.length + opener.length < p :=
      hopen
    rw [Source.text_around hpassages] at htake
    obtain ⟨more, stop, later', hfound⟩ := sweep_leading_of_take hfirst hpassage.gap
      ArgumentList.fit_nil (by simp [Node.depthAll]) htake (by simp; omega) hsweep
    rw [hfound]
    refine ⟨_, hnumber .., rfl, fun k key comma hkey hended hcomma => ?_⟩
    -- A key whose comma lies within the common part is settled, as the arguments before it are.
    obtain ⟨before, arg, after, hargs, rfl, rfl⟩ := ArgumentList.exists_of_getElem?_keys hkey
    have hmarker : (marker opener).length = opener.length + 1 := by simp [marker]
    rw [hmarker, ← Nat.add_assoc] at hended ⊢
    rw [Source.text_around hpassages, hargs] at hended
    rw [hargs] at htake
    exact getElem?_keys_of_take hfirst hpassage.gap (hargs ▸ hpassage.args) (hargs ▸ hpassage.depth)
      htake hended hcomma hsweep hfound

/-- The layers of a text that parses are those that a reader finds. -/
theorem layers_eq_found {text opener : Text} {keyCount : Option Int} {outline : Outline}
    (h : parse text keyCount opener = .ok outline) :
    outline.layers = (readText text keyCount opener).found.map (·.keys) := by
  obtain ⟨source, size, hfits, -, rfl, rfl⟩ := (parse_eq_ok_iff ..).mp h
  rw [hfits.found_readText]
  rfl

/-- Every key of a layer but the last one is ended by a comma. -/
theorem exists_endedBy_iff {text opener : Text} {keyCount : Option Int} {outline : Outline}
    (h : parse text keyCount opener = .ok outline) {layer : Invocation}
    (hlayer : layer ∈ (readText text keyCount opener).found) {k : Nat} {key : Key}
    (hkey : layer.keys[k]? = some key) :
    (∃ comma, EndedBy text key comma) ↔ k + 1 < layer.keys.length := by
  obtain ⟨source, size, hfits, -, rfl, rfl⟩ := (parse_eq_ok_iff ..).mp h
  rw [hfits.found_readText] at hlayer
  obtain ⟨first, passage, later, hpassages, rfl⟩ := exists_of_mem_invocations hlayer
  have hpassage := hfits.passages passage (by rw [hpassages]; simp)
  obtain ⟨before, arg, after, hargs, rfl, rfl⟩ := ArgumentList.exists_of_getElem?_keys hkey
  have harg := (ArgumentList.fit_append ..).mp (hargs ▸ hpassage.args)
  obtain ⟨harg, -⟩ := (ArgumentList.fit_cons ..).mp harg.2
  have hmarker : (marker opener).length = opener.length + 1 := by simp [marker]
  have hlength : (passage.invocation opener (0 + (passagesText opener first).length)).keys.length =
      before.length + (after.length + 1) := by
    rw [Passage.invocation, Passage.keys, ArgumentList.length_keys, hargs, List.length_append,
      List.length_cons]
  rw [Source.text_around hpassages, hargs, hlength, hmarker, Nat.zero_add, ← Nat.add_assoc]
  simp only [endedBy_iff_of_args harg.2.2]
  cases after <;> simp [closer]

/-- The first characters of a text that parses decide its layers as far as they go. -/
theorem settledBy_readText {a b opener : Text} {keyCount keyCount' : Option Int} {p : Nat}
    {outline outline' : Outline} (htake : a.take p = b.take p)
    (ha : parse a keyCount opener = .ok outline) (hb : parse b keyCount' opener = .ok outline') :
    SettledBy opener a p (readText a keyCount opener).found
      (readText b keyCount' opener).found := by
  obtain ⟨source, size, hfits, -, rfl, rfl⟩ := (parse_eq_ok_iff ..).mp ha
  obtain ⟨source', size', hfits', -, rfl, rfl⟩ := (parse_eq_ok_iff ..).mp hb
  have hsweep : (sweep opener 0 (source'.text opener)).failure = none := by
    rw [hfits'.sweep_text]
  have hsettled := hfits.settledBy htake hsweep
  rwa [hfits'.sweep_text, ← hfits.found_readText keyCount, ← hfits'.found_readText keyCount']
    at hsettled

/-! ## Edits -/

/-- Setting a key, if the result is accepted, leaves all keys before it as they were. -/
theorem key?_of_setKey {text value edited opener : Text} {keyCount : Option Int} {layer key : Int}
    {outline : Outline} (hparse : parse text keyCount opener = .ok outline)
    (hset : setKey text layer key value keyCount opener = .ok edited) :
    ∃ outline', parse edited keyCount opener = .ok outline' ∧
      ∀ l k, l < layer ∨ l = layer ∧ k < key → outline'.key? l k = outline.key? l k := by
  cases hkey : outline.key? layer key with
  | none =>
    rw [setKey_missing value hparse hkey] at hset
    obtain rfl := Except.ok.inj hset
    exact ⟨outline, hparse, fun _ _ _ => rfl⟩
  | some node =>
    obtain ⟨rfl, outline', hparse'⟩ := (setKey_eq_ok_iff value edited hparse hkey).mp hset
    refine ⟨outline', hparse', ?_⟩
    obtain ⟨source, size, hfits, -, rfl, rfl⟩ := (parse_eq_ok_iff ..).mp hparse
    obtain ⟨site, old, rfl, rfl, rfl, rfl⟩ := Source.exists_site hkey
    have hlayer := hfits.passages ⟨site.gap, site.before ++ old :: site.after⟩ (by simp [Site.fill])
    have hfirst : ∀ passage ∈ site.first, passage.Fits opener := fun passage hmem =>
      hfits.passages passage (by simp [Site.fill, hmem])
    obtain ⟨hbefore, -⟩ := (ArgumentList.fit_append ..).mp hlayer.args
    have hdepth := hlayer.depth
    rw [ArgumentList.keys_append, Node.depthAll_append, Nat.max_le] at hdepth
    -- The edited text is the same up to the arguments before the key.
    have htext : (old.token.key ((site.textBefore opener).length + old.before.length)).replaceIn
        ((site.fill old).text opener) value =
        passagesText opener site.first ++ (site.gap ++ marker opener ++ (site.before.leading ++
          (old.before ++ value ++ (old.after ++ site.textAfter opener)))) := by
      rw [Node.replaceIn, Token.offset_key, Token.content_key, Site.splice_text, Site.textBefore]
      simp only [List.append_assoc]
    rw [htext, parse_eq_ok_iff_outline] at hparse'
    obtain ⟨hfailure, -, houtline, -⟩ := (Sweep.outline_eq_ok_iff ..).mp hparse'
    -- The sweep reads these layers and arguments again, whatever the value brings behind them.
    obtain ⟨more, stop, later, hfound⟩ :=
      sweep_leading hfirst hlayer.gap hbefore hdepth.1 hfailure
    have hlayers : outline'.layers = site.layersBefore opener ++ (site.keysBefore opener ++ more) ::
        later.map (·.keys) := by
      rw [houtline, hfound, List.map_append, Site.keysBefore, marker, List.length_append,
        List.length_singleton, ← Nat.add_assoc]
      rfl
    intro l k hlk
    exact Outline.key?_congr hlayers (Site.layers_fill opener site old) (by simpa using hlk)

/-! ## From left to right -/

/-- What has been read of a text is not taken back. A decided fault is found whatever comes behind
the text. Texts that begin alike agree in the layers that are closed there, and in the keys whose
commas stand there; all keys but the last one of a layer have such a comma. So whatever a key is set
to, the keys before it stay. -/
theorem parse_causal (opener : Text) (keyCount : Option Int) :
    (∀ text e more, parse text keyCount opener = .error e → e.cause.IsDecided →
      ∃ e', parse (text ++ more) keyCount opener = .error e' ∧ e'.cause = e.cause ∧
        e'.offset = e.offset ∧ e'.location = e.location) ∧
    (∀ a b p keyCount' outline outline', a.take p = b.take p →
      parse a keyCount opener = .ok outline → parse b keyCount' opener = .ok outline' →
      outline.layers = (readText a keyCount opener).found.map (·.keys) ∧
        outline'.layers = (readText b keyCount' opener).found.map (·.keys) ∧
        (∀ layer ∈ (readText a keyCount opener).found, ∀ k key, layer.keys[k]? = some key →
          ((∃ comma, EndedBy a key comma) ↔ k + 1 < layer.keys.length)) ∧
        SettledBy opener a p (readText a keyCount opener).found
          (readText b keyCount' opener).found) ∧
    (∀ text layer key value outline edited, parse text keyCount opener = .ok outline →
      setKey text layer key value keyCount opener = .ok edited →
      ∃ outline', parse edited keyCount opener = .ok outline' ∧
        ∀ l k, l < layer ∨ l = layer ∧ k < key → outline'.key? l k = outline.key? l k) := by
  refine ⟨fun text e more h hcause => parse_append_of_decided h hcause more,
    fun a b p keyCount' outline outline' htake ha hb => ?_,
    fun text layer key value outline edited => key?_of_setKey⟩
  exact ⟨layers_eq_found ha, layers_eq_found hb, fun _ hlayer _ _ => exists_endedBy_iff ha hlayer,
    settledBy_readText htake ha hb⟩

end

open Usual

/-- A missing token stays missing, and a call with a comment before its comma stays the second key
of a layer that goes on in another way. A key that is set to two leaves the one before it. -/
theorem parse_causal_second_key :
    (∃ e, parse ("K(A, )".toList ++ " K(B, C)".toList) none "K".toList = .error e ∧
      e.cause = .missingToken ∧ e.offset = 5) ∧
    (∃ layer, (readText "K(A, f(B) /*,*/, D, /)".toList none "K".toList).found[0]? = some layer ∧
      layer.keys[1]? = some (.call ['f'] [.word ['B'] 7 8] 5 9 "f(B)".toList)) ∧
    ∃ outline, parse "K(A, X, Y)".toList none "K".toList = .ok outline ∧
      outline.key? 0 0 = some (.word ['A'] 2 3) := by
  have herror : parse "K(A, )".toList none "K".toList =
      .error (Cause.missingToken.locate "K(A, )".toList 5) := by decide +kernel
  have hparse : parse "K(A, f(B) /*,*/, C)".toList none "K".toList =
      .ok ⟨[[.word ['A'] 2 3, .call ['f'] [.word ['B'] 7 8] 5 9 "f(B)".toList,
        .word ['C'] 17 18]], 19⟩ := by decide +kernel
  have hparse' : parse "K(A, f(B) /*,*/, D, /)".toList none "K".toList =
      .ok ⟨[[.word ['A'] 2 3, .call ['f'] [.word ['B'] 7 8] 5 9 "f(B)".toList,
        .word ['D'] 17 18, .word ['/'] 20 21]], 22⟩ := by decide +kernel
  have hended : EndedBy "K(A, f(B) /*,*/, C)".toList
      (.call ['f'] [.word ['B'] 7 8] 5 9 "f(B)".toList) 15 :=
    ⟨by decide, rfl, .blank rfl (@Trivia.block [','] [] (by decide) .nil)⟩
  have htake : "K(A, f(B) /*,*/, C)".toList.take 16 =
      "K(A, f(B) /*,*/, D, /)".toList.take 16 := by decide
  have hcausal := parse_causal "K".toList none
  obtain ⟨e, he, hcause, hoffset, -⟩ := hcausal.1 _ _ " K(B, C)".toList herror trivial
  have hopened := (hcausal.2.1 _ _ 16 none _ _ htake hparse hparse').2.2.2.opened
  have hlayer : (readText "K(A, f(B) /*,*/, C)".toList none "K".toList).found[0]? =
      some ⟨0, [.word ['A'] 2 3, .call ['f'] [.word ['B'] 7 8] 5 9 "f(B)".toList,
        .word ['C'] 17 18], 19⟩ := by decide +kernel
  obtain ⟨layer, hlayer', -, hkeys⟩ := hopened 0 _ hlayer (by decide)
  have hbefore : parse "K(A, B)".toList none "K".toList =
      .ok ⟨[[.word ['A'] 2 3, .word ['B'] 5 6]], 7⟩ := by decide +kernel
  have hset : setKey "K(A, B)".toList 0 1 "X, Y".toList none "K".toList =
      .ok "K(A, X, Y)".toList := by decide +kernel
  obtain ⟨outline, hafter, hkey⟩ := hcausal.2.2 _ 0 1 _ _ _ hbefore hset
  exact ⟨⟨e, he, hcause, hoffset⟩, ⟨layer, hlayer', hkeys 1 _ 15 rfl hended (by decide)⟩,
    outline, hafter, hkey 0 0 (.inr ⟨rfl, by decide⟩)⟩

end Keymap
