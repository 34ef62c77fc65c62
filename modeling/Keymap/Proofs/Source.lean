import Keymap.Outline
import Keymap.Proofs.Relocation
import Keymap.Proofs.Scan.Complete
import Keymap.Proofs.Scan.Sound
import Keymap.Proofs.Search

/-!
# Sources

A source text that parses is a list of passages and a tail. A passage is an invocation with the
text before it that is not read, and nothing is read of the tail. What is asked of a passage does
not depend on the passages around it, so a source may be edited passage by passage.

## Key results

- `sweep_passages_append` — a sweep reads passages and goes on behind them
- `sweep_eq_iff` — a sweep finds the invocations of the passages of a source
- `parse_eq_ok_iff` — a text parses exactly if it is that of a source that fits
-/

namespace Keymap

/-! ## Passages -/

/-- An invocation as it is written, with the text before it that is not read. -/
structure Passage where
  gap : Text
  args : ArgumentList

namespace Passage

/-- The characters of a passage. -/
def text (opener : Text) (passage : Passage) : Text :=
  passage.gap ++ marker opener ++ passage.args.text

/-- The length of a passage, with its opener and the parenthesis behind that counted apart. -/
theorem length_text (opener : Text) (passage : Passage) :
    (passage.text opener).length =
      passage.gap.length + opener.length + 1 + passage.args.text.length := by
  simp only [text, marker, List.length_append, List.length_singleton, Nat.add_assoc]

/-- What a passage must be like. -/
structure Fits [Machine] (opener : Text) (passage : Passage) : Prop where
  gap : ¬ marker opener <:+: passage.gap ++ opener
  args_ne_nil : passage.args ≠ []
  args : passage.args.Fit
  depth : Node.depthAll (passage.args.keys 0) ≤ nestingLimit

/-- The keys of a passage that begins at an offset. -/
def keys (opener : Text) (pos : Nat) (passage : Passage) : List Key :=
  passage.args.keys (pos + passage.gap.length + (marker opener).length)

/-- The keys of a passage begin behind the parenthesis. -/
theorem keys_eq (opener : Text) (pos : Nat) (passage : Passage) :
    passage.keys opener pos =
      passage.args.keys (pos + passage.gap.length + opener.length + 1) := by
  rw [keys, marker, List.length_append, List.length_singleton, ← Nat.add_assoc]

/-- The invocation of a passage that begins at an offset. -/
def invocation (opener : Text) (pos : Nat) (passage : Passage) : Invocation :=
  ⟨pos + passage.gap.length, passage.keys opener pos, pos + (passage.text opener).length⟩

end Passage

/-- The characters of passages, one after the other. -/
def passagesText (opener : Text) (passages : List Passage) : Text :=
  passages.flatMap (·.text opener)

/-- The invocations of passages that begin at an offset. -/
def invocations (opener : Text) : Nat → List Passage → List Invocation
  | _, [] => []
  | pos, passage :: rest =>
    passage.invocation opener pos ::
      invocations opener (pos + (passage.text opener).length) rest

section

variable (opener : Text)

@[simp] theorem passagesText_nil : passagesText opener [] = [] := rfl

@[simp] theorem passagesText_cons (passage : Passage) (rest : List Passage) :
    passagesText opener (passage :: rest) = passage.text opener ++ passagesText opener rest := by
  simp [passagesText]

@[simp] theorem passagesText_append (first later : List Passage) :
    passagesText opener (first ++ later) =
      passagesText opener first ++ passagesText opener later := by
  simp [passagesText]

@[simp] theorem length_invocations (pos : Nat) (passages : List Passage) :
    (invocations opener pos passages).length = passages.length := by
  induction passages generalizing pos with
  | nil => rfl
  | cons passage rest ih => simp [invocations, ih]

/-- The invocations of a list of passages are those of its parts. -/
theorem invocations_append (pos : Nat) (first later : List Passage) :
    invocations opener pos (first ++ later) =
      invocations opener pos first ++
        invocations opener (pos + (passagesText opener first).length) later := by
  induction first generalizing pos with
  | nil => rfl
  | cons passage rest ih =>
    rw [List.cons_append, invocations, ih, invocations, passagesText_cons, List.length_append,
      Nat.add_assoc, List.cons_append]

/-- The contents of the keys of passages are the characters of their tokens. -/
theorem map_content_invocations (pos : Nat) (passages : List Passage) :
    (invocations opener pos passages).map (·.keys.map Node.content) =
      passages.map (·.args.map (·.token.text)) := by
  induction passages generalizing pos with
  | nil => rfl
  | cons passage rest ih =>
    rw [invocations, List.map_cons, ih, List.map_cons, Passage.invocation, Passage.keys,
      ArgumentList.map_content_keys]

/-- An invocation is that of a passage, with as many passages before it in front. -/
theorem exists_of_getElem?_invocations {opener : Text} {pos n : Nat} {passages : List Passage}
    {found : Invocation} (h : (invocations opener pos passages)[n]? = some found) :
    ∃ first passage later, passages = first ++ passage :: later ∧ n = first.length ∧
      found = passage.invocation opener (pos + (passagesText opener first).length) := by
  induction passages generalizing pos n with
  | nil => exact nomatch h
  | cons passage rest ih =>
    cases n with
    | zero =>
      obtain rfl := Option.some.inj h
      exact ⟨[], passage, rest, rfl, rfl, rfl⟩
    | succ n =>
      obtain ⟨first, next, later, rfl, rfl, rfl⟩ := ih h
      refine ⟨passage :: first, next, later, rfl, rfl, ?_⟩
      rw [passagesText_cons, List.length_append, Nat.add_assoc]

/-- An invocation is that of a passage, with the passages before it in front. -/
theorem exists_of_mem_invocations {opener : Text} {pos : Nat} {passages : List Passage}
    {found : Invocation} (h : found ∈ invocations opener pos passages) :
    ∃ first passage later, passages = first ++ passage :: later ∧
      found = passage.invocation opener (pos + (passagesText opener first).length) := by
  obtain ⟨n, hn⟩ := List.mem_iff_getElem?.mp h
  obtain ⟨first, passage, later, hpassages, -, hfound⟩ := exists_of_getElem?_invocations hn
  exact ⟨first, passage, later, hpassages, hfound⟩

end

/-! ## Sweeping -/

variable [Machine]

namespace Passage

variable {opener : Text} {passage : Passage}

/-- Wherever a passage begins, its keys are not too deep. -/
theorem Fits.depth_keys (h : passage.Fits opener) (pos : Nat) :
    Node.depthAll (passage.keys opener pos) ≤ nestingLimit := by
  rw [Passage.keys, ArgumentList.depthAll_keys passage.args _ 0]
  exact h.depth

/-- A search finds a passage. -/
theorem Fits.seek (h : passage.Fits opener) (pos : Nat) (rest : Text) :
    Keymap.seek (marker opener) pos (passage.text opener ++ rest) =
      some (pos + passage.gap.length, passage.args.text ++ rest) :=
  (seek_eq_some_iff ..).mpr ⟨passage.gap, by simp [Passage.text], rfl, h.gap⟩

/-- A passage is read from where it is found. -/
theorem Fits.scan (h : passage.Fits opener) (pos : Nat) (rest : Text) :
    (State.initial (pos + passage.gap.length + opener.length)).scan (passage.args.text ++ rest) =
      .ok ⟨passage.keys opener pos, pos + (passage.text opener).length, rest⟩ := by
  have hdepth := h.depth_keys pos
  have hstop : pos + (passage.text opener).length =
      pos + passage.gap.length + opener.length + 1 + passage.args.text.length := by
    rw [length_text]
    omega
  rw [keys_eq] at hdepth ⊢
  rw [hstop]
  exact State.scan_arguments _ rest h.args_ne_nil h.args hdepth

/-- What is read where the marker is found is a passage. -/
theorem exists_of_scan {gap body : Text} {pos : Nat} {closed : State.Closed}
    (hgap : ¬ marker opener <:+: gap ++ opener)
    (hscan : (State.initial (pos + gap.length + opener.length)).scan body = .ok closed) :
    ∃ passage : Passage, passage.Fits opener ∧
      gap ++ marker opener ++ body = passage.text opener ++ closed.rest ∧
      passage.invocation opener pos = ⟨pos + gap.length, closed.keys, closed.stop⟩ := by
  obtain ⟨args, hne, hfit, hbody, hkeys, hdepth⟩ := State.scan_sound hscan
  have hfits : Fits opener ⟨gap, args⟩ := by
    rw [hkeys, ArgumentList.depthAll_keys args _ 0] at hdepth
    exact ⟨hgap, hne, hfit, hdepth⟩
  -- What is read back from the arguments is what was read.
  have hback := hfits.scan pos closed.rest
  rw [← hbody, hscan] at hback
  have hclosed := Except.ok.inj hback
  refine ⟨⟨gap, args⟩, hfits, ?_, ?_⟩
  · rw [hbody, text]
    simp only [List.append_assoc]
  · rw [invocation, hclosed]

end Passage

/-- A sweep reads passages that fit and goes on with the text behind them. -/
theorem sweep_passages_append {opener : Text} (pos : Nat) {passages : List Passage}
    (hfits : ∀ passage ∈ passages, passage.Fits opener) (rest : Text) :
    sweep opener pos (passagesText opener passages ++ rest) =
      ⟨invocations opener pos passages ++
          (sweep opener (pos + (passagesText opener passages).length) rest).found,
        (sweep opener (pos + (passagesText opener passages).length) rest).failure⟩ := by
  induction passages generalizing pos with
  | nil => rfl
  | cons passage later ih =>
    obtain ⟨hpassage, hlater⟩ := List.forall_mem_cons.mp hfits
    have hseek := hpassage.seek pos (passagesText opener later ++ rest)
    have hscan := hpassage.scan pos (passagesText opener later ++ rest)
    rw [passagesText_cons, List.append_assoc, sweep_ok hseek hscan, ih _ hlater, invocations,
      List.length_append, ← Nat.add_assoc]
    rfl

/-- Behind passages that fit and a marker, a sweep that does not fail reads a layer, whatever has
been read of it before. -/
theorem sweep_passages_reads {opener gap read behind : Text} {passages : List Passage} {t : State}
    (hfits : ∀ passage ∈ passages, passage.Fits opener)
    (hgap : ¬ marker opener <:+: gap ++ opener)
    (hreads : (State.initial ((passagesText opener passages).length + gap.length +
      opener.length)).Reads read t)
    (hsweep : (sweep opener 0 (passagesText opener passages ++
      (gap ++ marker opener ++ (read ++ behind)))).failure = none) :
    ∃ closed, t.scan behind = .ok closed ∧
      (sweep opener 0 (passagesText opener passages ++
        (gap ++ marker opener ++ (read ++ behind)))).found =
        invocations opener 0 passages ++
          ⟨(passagesText opener passages).length + gap.length, closed.keys, closed.stop⟩ ::
          (sweep opener closed.stop closed.rest).found := by
  have hseek : seek (marker opener) (0 + (passagesText opener passages).length)
      (gap ++ marker opener ++ (read ++ behind)) =
      some ((passagesText opener passages).length + gap.length, read ++ behind) :=
    (seek_eq_some_iff ..).mpr ⟨gap, rfl, by rw [Nat.zero_add], hgap⟩
  rw [sweep_passages_append 0 hfits] at hsweep ⊢
  -- An error in the rest of the layer would be a failure of the sweep.
  cases hscan : t.scan behind with
  | error failure =>
    rw [sweep_error hseek ((hreads.scan behind).trans hscan)] at hsweep
    cases hsweep
  | ok closed =>
    rw [sweep_ok hseek ((hreads.scan behind).trans hscan)]
    exact ⟨closed, rfl, rfl⟩

/-- A sweep finds exactly the invocations of the passages that a text consists of, if nothing is
found in its tail. -/
theorem sweep_eq_iff (opener : Text) (pos : Nat) (text : Text) (found : List Invocation) :
    sweep opener pos text = ⟨found, none⟩ ↔
      ∃ passages tail, text = passagesText opener passages ++ tail ∧
        (∀ passage ∈ passages, passage.Fits opener) ∧ ¬ marker opener <:+: tail ∧
        found = invocations opener pos passages := by
  have hmarker : marker opener ≠ [] := by simp [marker]
  constructor
  · intro h
    -- By induction on the length of the text, since each passage makes it shorter.
    induction hlength : text.length using Nat.strongRecOn generalizing pos text found with
    | _ length ih =>
      cases hseek : seek (marker opener) pos text with
      | none =>
        rw [sweep_none hseek] at h
        obtain ⟨rfl, -⟩ := Sweep.mk.inj h
        exact ⟨[], text, rfl, by simp, (seek_eq_none_iff hmarker ..).mp hseek, rfl⟩
      | some place =>
        obtain ⟨start, body⟩ := place
        cases hscan : (State.initial (start + opener.length)).scan body with
        | error failure =>
          rw [sweep_error hseek hscan] at h
          cases (Sweep.mk.inj h).2
        | ok closed =>
          rw [sweep_ok hseek hscan] at h
          obtain ⟨rfl, hlater⟩ := Sweep.mk.inj h
          -- The rest of the text is shorter, since a passage has been taken off.
          have hshort : closed.rest.length < length := by
            rw [← hlength]
            exact Nat.lt_trans (State.scan_rest_length_lt hscan) (length_lt_of_seek hmarker hseek)
          obtain ⟨gap, htext, rfl, hgap⟩ := (seek_eq_some_iff ..).mp hseek
          obtain ⟨passage, hfits, hpassage, hinvocation⟩ := Passage.exists_of_scan hgap hscan
          obtain ⟨passages, tail, hrest, hall, htail, hfound⟩ :=
            ih _ hshort closed.stop closed.rest _ (by rw [← hlater]) rfl
          have hstop : closed.stop = pos + (passage.text opener).length :=
            (congrArg Invocation.stop hinvocation).symm
          refine ⟨passage :: passages, tail, ?_, ?_, htail, ?_⟩
          · rw [htext, hpassage, hrest, passagesText_cons, List.append_assoc]
          · exact List.forall_mem_cons.mpr ⟨hfits, hall⟩
          · rw [hfound, ← hinvocation, hstop, invocations]
  · intro hparts
    obtain ⟨passages, tail, rfl, hfits, htail, rfl⟩ := hparts
    have hnone :=
      (seek_eq_none_iff hmarker (pos + (passagesText opener passages).length) _).mpr htail
    rw [sweep_passages_append pos hfits, sweep_none hnone, List.append_nil]

/-! ## Outlines -/

omit [Machine] in
/-- Layers are even if each has as many keys as is expected. -/
theorem uneven?_eq_none_iff (expected number : Nat) (found : List Invocation) :
    uneven? expected number found = none ↔ ∀ layer ∈ found, layer.keys.length = expected := by
  induction found generalizing number with
  | nil => simp [uneven?]
  | cons layer rest ih =>
    rw [uneven?, List.forall_mem_cons]
    split <;> rename_i h
    · simp [ih, h]
    · simp [h]

omit [Machine] in
/-- Layers that were found have an outline exactly if they agree in size with each other and with
the number that is asked for. -/
theorem Sweep.outline_eq_ok_iff (s : Sweep) (opener : Text) (keyCount : Option Int)
    (outline : Outline) :
    s.outline opener keyCount = .ok outline ↔
      s.failure = none ∧ s.found ≠ [] ∧ outline = ⟨s.found.map (·.keys), s.stop 0⟩ ∧
        (∀ layer ∈ outline.layers, layer.length = outline.keyCount) ∧
        ∀ expected ∈ keyCount, expected = outline.keyCount := by
  obtain ⟨found, failure⟩ := s
  cases failure with
  | some failure => simp [Sweep.outline]
  | none =>
    cases found with
    | nil => simp [Sweep.outline]
    | cons first later =>
      -- The layers are compared with each other before they are counted.
      have heven := uneven?_eq_none_iff first.keys.length 0 (first :: later)
      simp only [Sweep.outline]
      split <;> rename_i h
      · -- A layer differs from the first one.
        simp only [reduceCtorEq, false_iff]
        intro hparts
        obtain ⟨-, -, rfl, hsizes, -⟩ := hparts
        have hnone := heven.mpr (by simpa [Outline.keyCount] using hsizes)
        rw [h] at hnone
        cases hnone
      · have hsizes := heven.mp h
        -- All layers agree, and it remains to compare them with the number.
        cases keyCount with
        | none =>
          constructor
          · intro h
            obtain rfl := Except.ok.inj h
            simpa [Outline.keyCount] using hsizes
          · intro hparts
            obtain ⟨-, -, rfl, -⟩ := hparts
            rfl
        | some expected =>
          simp only
          split <;> rename_i hexpected
          · constructor
            · intro h
              obtain rfl := Except.ok.inj h
              simpa [Outline.keyCount, hexpected] using hsizes
            · intro hparts
              obtain ⟨-, -, rfl, -⟩ := hparts
              rfl
          · simp only [reduceCtorEq, false_iff]
            intro hparts
            obtain ⟨-, -, rfl, -, hcount⟩ := hparts
            exact hexpected (hcount expected rfl)

omit [Machine] in
/-- The offset after the last of the passages is that after all of them. -/
theorem map_stop_invocations (opener : Text) (pos : Nat) {passages : List Passage}
    (h : passages ≠ []) :
    (invocations opener pos passages).getLast?.map Invocation.stop =
      some (pos + (passagesText opener passages).length) := by
  rcases List.eq_nil_or_concat passages with rfl | ⟨first, last, rfl⟩
  · exact absurd rfl h
  · simp [invocations_append, invocations, Passage.invocation, Nat.add_assoc]

/-! ## Sources -/

/-- A source text as it is written: its passages, and the tail in which nothing is read. -/
structure Source where
  passages : List Passage
  tail : Text

namespace Source

/-- The characters of a source. -/
def text (opener : Text) (source : Source) : Text :=
  passagesText opener source.passages ++ source.tail

/-- The outline of a source. -/
def outline (opener : Text) (source : Source) : Outline :=
  ⟨(invocations opener 0 source.passages).map (·.keys),
    (passagesText opener source.passages).length⟩

/-- What a source with a number of keys in each layer must be like. -/
structure Fits [Machine] (opener : Text) (size : Nat) (source : Source) : Prop where
  passages_ne_nil : source.passages ≠ []
  passages : ∀ passage ∈ source.passages, passage.Fits opener
  size : ∀ passage ∈ source.passages, passage.args.length = size
  tail : ¬ marker opener <:+: source.tail

variable {opener : Text}

omit [Machine] in
/-- A layer of a source is that of a passage, with the passages before it in front. -/
theorem exists_passage {source : Source} {layer : List Key}
    (h : layer ∈ (source.outline opener).layers) :
    ∃ first passage later, source.passages = first ++ passage :: later ∧
      layer = passage.keys opener (passagesText opener first).length := by
  obtain ⟨found, hfound, rfl⟩ := List.mem_map.mp h
  obtain ⟨first, passage, later, hpassages, rfl⟩ := exists_of_mem_invocations hfound
  exact ⟨first, passage, later, hpassages, by rw [Nat.zero_add]; rfl⟩

/-- No call of a source that fits stands too deeply in others. -/
theorem Fits.depth_layers {source : Source} {size : Nat} (h : source.Fits opener size) :
    ∀ layer ∈ (source.outline opener).layers, Node.depthAll layer ≤ nestingLimit := by
  intro layer hlayer
  obtain ⟨first, passage, later, hpassages, rfl⟩ := exists_passage hlayer
  exact (h.passages passage (by rw [hpassages]; simp)).depth_keys _

omit [Machine] in
/-- The sizes of the layers are those of the passages. -/
theorem map_length_layers (opener : Text) (source : Source) :
    (source.outline opener).layers.map List.length = source.passages.map (·.args.length) := by
  rw [outline, List.map_map]
  generalize 0 = pos
  induction source.passages generalizing pos with
  | nil => rfl
  | cons passage rest ih => simp [invocations, Passage.invocation, Passage.keys, ih]

/-- The outline of a source that fits has as many keys in each layer as it should. -/
theorem Fits.keyCount_outline {source : Source} {size : Nat} (h : source.Fits opener size) :
    (source.outline opener).keyCount = size := by
  have hhead := congrArg List.head? (source.map_length_layers opener)
  rw [List.head?_map, List.head?_map] at hhead
  rw [Outline.keyCount, hhead]
  obtain ⟨passage, rest, hpassages⟩ := List.exists_cons_of_ne_nil h.passages_ne_nil
  rw [hpassages]
  exact h.size passage (by rw [hpassages]; exact List.mem_cons_self)

omit [Machine] in
/-- The layers of a source agree in size exactly if its passages do. -/
theorem forall_length_layers_iff (opener : Text) (source : Source) (size : Nat) :
    (∀ layer ∈ (source.outline opener).layers, layer.length = size) ↔
      ∀ passage ∈ source.passages, passage.args.length = size := by
  have hsizes := source.map_length_layers opener
  have hlayers := List.forall_mem_map (l := (source.outline opener).layers) (f := List.length)
    (P := fun n => n = size)
  rw [← hlayers, hsizes, List.forall_mem_map]

/-- A source that fits is swept to its end. -/
theorem Fits.sweep_text {source : Source} {size : Nat} (h : source.Fits opener size) :
    sweep opener 0 (source.text opener) = ⟨invocations opener 0 source.passages, none⟩ :=
  (sweep_eq_iff ..).mpr ⟨source.passages, source.tail, rfl, h.passages, h.tail, rfl⟩

/-- The invocations that are read from a source are those of its passages. -/
theorem Fits.found_readText {source : Source} {size : Nat} (h : source.Fits opener size)
    (keyCount : Option Int) :
    (readText (source.text opener) keyCount opener).found =
      invocations opener 0 source.passages := by
  simp only [readText, h.sweep_text]

end Source

/-- Locating a fault does not change whether a text parses, and to what. -/
theorem parse_eq_ok_iff_outline (text : Text) (keyCount : Option Int) (opener : Text)
    (outline : Outline) :
    parse text keyCount opener = .ok outline ↔
      (sweep opener 0 text).outline opener keyCount = .ok outline := by
  simp only [parse, readText]
  exact State.mapError_eq_ok_iff ..

/-- A text parses exactly if it is that of a source that fits. -/
theorem parse_eq_ok_iff (text : Text) (keyCount : Option Int) (opener : Text)
    (outline : Outline) :
    parse text keyCount opener = .ok outline ↔
      ∃ (source : Source) (size : Nat), source.Fits opener size ∧
        (∀ expected ∈ keyCount, expected = size) ∧ text = source.text opener ∧
        outline = source.outline opener := by
  rw [parse_eq_ok_iff_outline, Sweep.outline_eq_ok_iff]
  constructor
  · intro hparts
    obtain ⟨hfailure, hne, houtline, hsizes, hcount⟩ := hparts
    -- A sweep without a failure has read the text of passages and a tail.
    have hsweep : sweep opener 0 text = ⟨(sweep opener 0 text).found, none⟩ := by
      rw [← hfailure]
    obtain ⟨passages, tail, htext, hfits, htail, hfound⟩ := (sweep_eq_iff ..).mp hsweep
    rw [hfound] at hsweep hne
    have hpassages : passages ≠ [] := by
      rintro rfl
      exact hne rfl
    -- The outline is the one of these passages, whose sizes are those that were checked.
    have heq : outline = Source.outline opener ⟨passages, tail⟩ := by
      rw [houtline, hsweep, Sweep.stop, map_stop_invocations opener 0 hpassages, Nat.zero_add]
      rfl
    rw [heq] at hsizes hcount
    exact ⟨⟨passages, tail⟩, _,
      ⟨hpassages, hfits, (Source.forall_length_layers_iff ..).mp hsizes, htail⟩,
      hcount, htext, heq⟩
  · intro hparts
    obtain ⟨source, size, hfits, hcount, rfl, rfl⟩ := hparts
    -- Conversely, the text of a source is swept into its passages, and the checks succeed.
    have hsweep := (sweep_eq_iff opener 0 _ _).mpr
      ⟨source.passages, source.tail, rfl, hfits.passages, hfits.tail, rfl⟩
    have hsizes := (source.forall_length_layers_iff opener size).mpr hfits.size
    rw [Source.text, hsweep]
    refine ⟨rfl, ?_, ?_, ?_, ?_⟩
    · simpa [← List.length_eq_zero_iff] using hfits.passages_ne_nil
    · rw [Sweep.stop, map_stop_invocations opener 0 hfits.passages_ne_nil, Nat.zero_add]
      rfl
    · rwa [hfits.keyCount_outline]
    · rwa [hfits.keyCount_outline]

end Keymap
