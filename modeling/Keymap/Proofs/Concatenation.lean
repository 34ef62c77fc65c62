import Keymap.Proofs.ErrorOffset
import Keymap.Proofs.Scan.Advance

/-!
# Texts one after the other

A text that parses up to its very end can have another text behind it. The layers of both follow
each other, with those of the second text further on; if the second text has a fault, or layers of
another size, that is reported where it is found. Nothing of a layer is left over when its
parenthesis has closed it, and no marker stands across the seam.

## Key results

- `sweep_advance` — a text that stands further on is swept in the same way, further on
- `Sweep.outline_advance` — and so are its layers counted
- `sweep_append` — two texts are swept one after the other
- `parse_concatenated` — what two texts mean together
-/

namespace Keymap

/-! ## Sweeping further on -/

/-- The invocation as it stands `d` characters further on. -/
def Invocation.advance (d : Nat) (layer : Invocation) : Invocation :=
  ⟨d + layer.start, layer.keys.map (Node.advance d), d + layer.stop⟩

/-- The sweep as it goes `d` characters further on. -/
def Sweep.advance (d : Nat) (sweep : Sweep) : Sweep :=
  ⟨sweep.found.map (Invocation.advance d), sweep.failure.map (Failure.advance d)⟩

/-- The outline as it stands `d` characters further on. -/
def Outline.advance (d : Nat) (outline : Outline) : Outline :=
  ⟨outline.layers.map (·.map (Node.advance d)), d + outline.stop⟩

/-- A marker is found further on. -/
theorem seek_advance (mark : Text) (d pos : Nat) (text : Text) :
    seek mark (d + pos) text =
      (seek mark pos text).map fun (start, body) => (d + start, body) := by
  induction text generalizing pos with
  | nil => rfl
  | cons c rest ih =>
    rw [seek, seek]
    split
    · rfl
    · exact ih (pos + 1)

/-- A layer is scanned further on from where its marker is found further on. -/
theorem scan_initial_advance [Machine] (opener : Text) (d start : Nat) (body : Text) :
    (State.initial (d + start + opener.length)).scan body =
      (((State.initial (start + opener.length)).scan body).map (State.Closed.advance d)).mapError
        (Failure.advance d) := by
  have hpos : 0 < (State.initial (start + opener.length)).pos := Nat.succ_pos _
  rw [Nat.add_assoc]
  exact State.scan_advance _ d body hpos

/-- A text that stands further on is swept in the same way, further on. -/
theorem sweep_advance [Machine] (opener : Text) (d pos : Nat) (text : Text) :
    sweep opener (d + pos) text = (sweep opener pos text).advance d := by
  -- By induction on the length of the text, since each layer makes it shorter.
  induction hlength : text.length using Nat.strongRecOn generalizing pos text with
  | _ length ih =>
    have hseek' := seek_advance (marker opener) d pos text
    cases hseek : seek (marker opener) pos text with
    | none =>
      rw [hseek] at hseek'
      rw [sweep_none hseek, sweep_none hseek']
      rfl
    | some place =>
      obtain ⟨start, body⟩ := place
      rw [hseek] at hseek'
      have hscan' := scan_initial_advance opener d start body
      cases hscan : (State.initial (start + opener.length)).scan body with
      | error failure =>
        rw [hscan] at hscan'
        rw [sweep_error hseek hscan, sweep_error hseek' hscan']
        rfl
      | ok closed =>
        rw [hscan] at hscan'
        -- The scan consumes at least the closing parenthesis.
        have hshort : closed.rest.length < length := by
          rw [← hlength]
          exact Nat.lt_trans (State.scan_rest_length_lt hscan)
            (length_lt_of_seek (by simp [marker]) hseek)
        have hlater := ih _ hshort closed.stop closed.rest rfl
        rw [sweep_ok hseek hscan, sweep_ok hseek' hscan']
        simp only [State.Closed.advance, hlater]
        rfl

/-! ## Counting further on -/

/-- A layer that differs from the others does so further on. -/
theorem uneven?_advance (d expected number : Nat) (found : List Invocation) :
    uneven? expected number (found.map (Invocation.advance d)) =
      (uneven? expected number found).map (Fault.advance d) := by
  induction found generalizing number with
  | nil => rfl
  | cons layer rest ih =>
    have hlength : (layer.advance d).keys.length = layer.keys.length := List.length_map _
    rw [List.map_cons, uneven?, uneven?, hlength]
    split
    · exact ih (number + 1)
    · rfl

/-- What is found further on has the same outline, further on, or the same fault. -/
theorem Sweep.outline_advance (sweep : Sweep) (d : Nat) (opener : Text) (keyCount : Option Int) :
    (sweep.advance d).outline opener keyCount =
      ((sweep.outline opener keyCount).map (Outline.advance d)).mapError (Fault.advance d) := by
  obtain ⟨found, failure⟩ := sweep
  cases failure with
  | some failure => rfl
  | none =>
    cases found with
    | nil => rfl
    | cons first later =>
      have hlength : (first.advance d).keys.length = first.keys.length := List.length_map _
      have huneven := uneven?_advance d first.keys.length 0 (first :: later)
      -- The last invocation tells the end, which moves with it.
      have houtline : Outline.mk
          ((first.advance d :: later.map (Invocation.advance d)).map (·.keys))
          (stop ⟨first.advance d :: later.map (Invocation.advance d), none⟩ 0) =
          Outline.advance d ⟨(first :: later).map (·.keys), stop ⟨first :: later, none⟩ 0⟩ := by
        rw [stop, stop, ← List.map_cons, List.getLast?_map, List.getLast?_cons, Outline.advance,
          List.map_map, List.map_map]
        rfl
      rw [List.map_cons] at huneven
      simp only [advance, List.map_cons, Option.map_none, outline, hlength, huneven]
      simp only [← List.map_cons] at houtline ⊢
      -- The checks of sizes see only lengths, which do not move.
      cases uneven? first.keys.length 0 (first :: later) with
      | some fault => rfl
      | none =>
        simp only [Option.map_none, houtline]
        cases keyCount with
        | none => rfl
        | some expected =>
          simp only
          split <;> rfl

/-! ## Two texts -/

/-- A text that parses up to its end has no tail. -/
theorem Source.text_of_stop {opener : Text} {source : Source}
    (h : (source.outline opener).stop = (source.text opener).length) :
    source.text opener = passagesText opener source.passages := by
  have htail : source.tail = [] := by simpa [outline, text] using h
  rw [text, htail, List.append_nil]

/-- The sweep of a text that parses up to its end goes on with what stands behind the text. -/
theorem sweep_append [Machine] {text opener : Text} {keyCount : Option Int} {outline : Outline}
    (h : parse text keyCount opener = .ok outline) (hstop : outline.stop = text.length)
    (second : Text) :
    sweep opener 0 (text ++ second) =
      ⟨(sweep opener 0 text).found ++ ((sweep opener 0 second).advance text.length).found,
        ((sweep opener 0 second).advance text.length).failure⟩ := by
  obtain ⟨source, size, hfits, -, rfl, rfl⟩ := (parse_eq_ok_iff ..).mp h
  rw [← sweep_advance, Nat.add_zero]
  have htext := source.text_of_stop hstop
  have hfirst := sweep_passages_append 0 hfits.passages second
  rw [hfits.sweep_text, htext, hfirst, Nat.zero_add]

/-- The last layer of a text is the last one behind other layers, too. -/
theorem Sweep.stop_append_advance {sweep : Sweep} (hne : sweep.found ≠ []) (d : Nat)
    (found : List Invocation) (failure : Option Failure) :
    Sweep.stop ⟨found ++ (sweep.advance d).found, failure⟩ 0 = d + sweep.stop 0 := by
  have hne' : (sweep.advance d).found ≠ [] := by simpa [advance] using hne
  obtain ⟨last, hlast⟩ := Option.isSome_iff_exists.mp (List.getLast?_isSome.mpr hne)
  rw [stop, stop, List.getLast?_append_of_ne_nil _ hne', advance, List.getLast?_map, hlast]
  rfl

/-- A fault that the characters up to it decide, whatever comes after them. -/
def Cause.IsDecided : Cause → Prop
  | .missingToken | .missingName | .blankInName _ | .blankInKey _ => True
  | _ => False

/-- What a text with another one behind it means, if the first text parses up to its end. -/
structure Composes [Machine] (opener : Text) (keyCount : Option Int) (text : Text)
    (outline : Outline) (second : Text) : Prop where
  /-- No layer comes after those of the first text. -/
  bare : ¬ marker opener <:+: second → parse (text ++ second) keyCount opener = .ok outline
  /-- Layers of the same size follow. -/
  even : ∀ count later, parse second count opener = .ok later →
    later.keyCount = outline.keyCount →
    parse (text ++ second) keyCount opener =
      .ok ⟨outline.layers ++ (later.advance text.length).layers, text.length + later.stop⟩
  /-- The first layer of another size is reported at its marker. -/
  uneven : ∀ count later, parse second count opener = .ok later →
    later.keyCount ≠ outline.keyCount →
    ∃ gap rest, second = gap ++ marker opener ++ rest ∧
      (∀ before after, second = before ++ marker opener ++ after → gap.length ≤ before.length) ∧
      parse (text ++ second) keyCount opener =
        .error (Cause.locate (.unevenLayers outline.keyCount later.keyCount outline.layerCount)
          (text ++ second) (text.length + gap.length : Nat))
  /-- A fault within a layer is reported where it is. -/
  faulty : ∀ count e, parse second count opener = .error e →
    e.cause.IsDecided ∨ e.cause = .unclosed →
    parse (text ++ second) keyCount opener =
      .error (e.cause.locate (text ++ second) (text.length + e.offset))

/-- Layers of the expected size are passed over. -/
theorem uneven?_append {expected number : Nat} {found : List Invocation}
    (h : ∀ layer ∈ found, layer.keys.length = expected) (later : List Invocation) :
    uneven? expected number (found ++ later) = uneven? expected (number + found.length) later := by
  induction found generalizing number with
  | nil => rfl
  | cons layer rest ih =>
    obtain ⟨hlayer, hrest⟩ := List.forall_mem_cons.mp h
    rw [List.cons_append, uneven?, if_pos hlayer, ih hrest, List.length_cons, Nat.add_right_comm,
      Nat.add_assoc]

/-- Layers that differ are reported as such. -/
theorem cause_of_uneven? {expected number : Nat} {found : List Invocation} {fault : Fault}
    (h : uneven? expected number found = some fault) :
    ∃ actual number, fault.cause = .unevenLayers expected actual number := by
  induction found generalizing number with
  | nil => cases h
  | cons layer rest ih =>
    rw [uneven?] at h
    split at h
    · exact ih h
    · obtain rfl := Option.some.inj h
      exact ⟨_, _, rfl⟩

/-- Behind layers of one size, a layer of another one is the fault. -/
theorem Sweep.outline_append_uneven {found later : List Invocation} {size : Nat} {fault : Fault}
    (hne : found ≠ []) (hsizes : ∀ layer ∈ found, layer.keys.length = size)
    (h : uneven? size found.length later = some fault) (opener : Text) (keyCount : Option Int) :
    Sweep.outline ⟨found ++ later, none⟩ opener keyCount = .error fault := by
  obtain ⟨first, rest, rfl⟩ := List.exists_cons_of_ne_nil hne
  have huneven : uneven? first.keys.length 0 (first :: (rest ++ later)) = some fault := by
    rw [hsizes first List.mem_cons_self, ← List.cons_append, uneven?_append hsizes, Nat.zero_add, h]
  simp only [List.cons_append, outline, huneven]

/-- A fault of a layer stands further on. -/
theorem Fault.advance_of_cause {fault : Fault} (d : Nat)
    (h : fault.cause.IsDecided ∨ fault.cause = .unclosed) :
    fault.advance d = ⟨fault.cause, d + fault.offset⟩ := by
  obtain ⟨cause, offset⟩ := fault
  cases cause <;> first | rfl | simp [Cause.IsDecided] at h

section

variable [Machine]

/-- A text without an outline has the fault that the sweep of it ends with, or that its layers
have. -/
theorem parse_eq_error_iff_outline (text : Text) (keyCount : Option Int) (opener : Text)
    (e : SyntaxError) :
    parse text keyCount opener = .error e ↔
      ∃ fault, (sweep opener 0 text).outline opener keyCount = .error fault ∧
        fault.cause.locate text fault.offset = e := by
  simp only [parse, readText]
  exact State.mapError_eq_error_iff ..

omit [Machine] in
/-- A fault of a layer is what the sweep ends with. -/
theorem Sweep.failure_of_cause {sweep : Sweep} {opener : Text} {keyCount : Option Int}
    {fault : Fault} (h : sweep.outline opener keyCount = .error fault)
    (hcause : fault.cause.IsDecided ∨ fault.cause = .unclosed ∨ fault.cause = .tooDeep) :
    ∃ failure, sweep.failure = some failure ∧ failure.fault = fault := by
  rcases outline_eq_error h with ⟨failure, hfailure, rfl⟩ | ⟨-, -, rfl⟩ |
    ⟨first, later, -, -, huneven | ⟨-, expected, -, -, rfl⟩⟩
  · exact ⟨failure, hfailure, rfl⟩
  · simp [Cause.IsDecided] at hcause
  · obtain ⟨actual, number, hfault⟩ := cause_of_uneven? huneven
    simp [hfault, Cause.IsDecided] at hcause
  · simp [Cause.IsDecided] at hcause

section

variable {opener text second : Text} {keyCount count : Option Int} {outline later : Outline}

/-- A text without any layer changes nothing behind a text that parses up to its end. -/
theorem parse_append_bare (h : parse text keyCount opener = .ok outline)
    (hstop : outline.stop = text.length) (hsecond : ¬ marker opener <:+: second) :
    parse (text ++ second) keyCount opener = .ok outline := by
  obtain ⟨source, size, hfits, hcount, rfl, rfl⟩ := (parse_eq_ok_iff ..).mp h
  rw [source.text_of_stop hstop]
  exact (parse_eq_ok_iff ..).mpr ⟨⟨source.passages, second⟩, size,
    ⟨hfits.passages_ne_nil, hfits.passages, hfits.size, hsecond⟩, hcount, rfl, rfl⟩

/-- Layers of the same size follow those of a text that parses up to its end. -/
theorem parse_append_even (h : parse text keyCount opener = .ok outline)
    (hstop : outline.stop = text.length) (hlater : parse second count opener = .ok later)
    (hsize : later.keyCount = outline.keyCount) :
    parse (text ++ second) keyCount opener =
      .ok ⟨outline.layers ++ (later.advance text.length).layers, text.length + later.stop⟩ := by
  have happend := sweep_append h hstop second
  rw [parse_eq_ok_iff_outline, Sweep.outline_eq_ok_iff] at h hlater ⊢
  obtain ⟨-, hne, houtline, hsizes, hcount⟩ := h
  obtain ⟨hfailure, hne', houtline', hsizes', -⟩ := hlater
  -- The first layer, which sets the size, is that of the first text.
  have hhead : Outline.keyCount ⟨outline.layers ++ (later.advance text.length).layers,
      text.length + later.stop⟩ = outline.keyCount := by
    rw [Outline.keyCount, Outline.keyCount, List.head?_append_of_ne_nil]
    simpa [houtline] using hne
  rw [happend, hhead]
  refine ⟨by simp [Sweep.advance, hfailure], by simp [hne], ?_, ?_, hcount⟩
  · rw [Sweep.stop_append_advance hne', houtline, houtline', List.map_append]
    simp [Sweep.advance, Outline.advance, Invocation.advance, Function.comp_def]
  · intro layer hlayer
    rcases List.mem_append.mp hlayer with hlayer | hlayer
    · exact hsizes layer hlayer
    · obtain ⟨layer', hlayer', rfl⟩ := List.mem_map.mp hlayer
      rw [List.length_map, hsizes' layer' hlayer', hsize]

/-- The first layer of another size behind a text that parses up to its end is reported at its
marker. -/
theorem parse_append_uneven (h : parse text keyCount opener = .ok outline)
    (hstop : outline.stop = text.length) (hlater : parse second count opener = .ok later)
    (hsize : later.keyCount ≠ outline.keyCount) :
    ∃ gap rest, second = gap ++ marker opener ++ rest ∧
      (∀ before after, second = before ++ marker opener ++ after → gap.length ≤ before.length) ∧
      parse (text ++ second) keyCount opener =
        .error (Cause.locate (.unevenLayers outline.keyCount later.keyCount outline.layerCount)
          (text ++ second) (text.length + gap.length : Nat)) := by
  obtain ⟨source, size', hfits, -, rfl, rfl⟩ := (parse_eq_ok_iff ..).mp hlater
  obtain ⟨passage, rest, hpassages⟩ := List.exists_cons_of_ne_nil hfits.passages_ne_nil
  have hmem : passage ∈ source.passages := by rw [hpassages]; exact List.mem_cons_self
  have hpassage := hfits.passages passage hmem
  have htext : source.text opener = passage.gap ++ marker opener ++
      (passage.args.text ++ passagesText opener rest ++ source.tail) := by
    simp [Source.text, hpassages, Passage.text]
  refine ⟨passage.gap, _, htext, ?_, ?_⟩
  · rw [htext]
    exact (leftmost_iff opener '(' passage.gap _).mpr hpassage.gap
  · have happend := sweep_append h hstop (source.text opener)
    rw [hfits.sweep_text] at happend
    rw [hfits.keyCount_outline] at hsize ⊢
    rw [parse_eq_ok_iff_outline, Sweep.outline_eq_ok_iff] at h
    obtain ⟨-, hne, houtline, hsizes, -⟩ := h
    -- All layers of the first text have the size of its outline.
    have hsizes' : ∀ layer ∈ (sweep opener 0 text).found, layer.keys.length = outline.keyCount :=
      fun layer hlayer => hsizes _ (by rw [houtline]; exact List.mem_map_of_mem hlayer)
    have hnumber : (sweep opener 0 text).found.length = outline.layerCount := by
      rw [Outline.layerCount, houtline, List.length_map]
    have hkeys : (passage.invocation opener 0).keys.length = size' := by
      rw [Passage.invocation, Passage.keys, ArgumentList.length_keys, hfits.size passage hmem]
    have hstart : (passage.invocation opener 0).start = passage.gap.length := Nat.zero_add _
    -- The first layer of the second text differs.
    have huneven : uneven? outline.keyCount (sweep opener 0 text).found.length
        ((invocations opener 0 source.passages).map (Invocation.advance text.length)) =
        some ⟨.unevenLayers outline.keyCount size' outline.layerCount,
          text.length + passage.gap.length⟩ := by
      rw [uneven?_advance, hpassages, invocations, uneven?, hkeys, if_neg hsize, hnumber, hstart]
      rfl
    rw [parse_eq_error_iff_outline, happend]
    exact ⟨_, Sweep.outline_append_uneven hne hsizes' huneven opener keyCount, rfl⟩

/-- A fault within a layer behind a text that parses up to its end is reported where it is. -/
theorem parse_append_faulty (h : parse text keyCount opener = .ok outline)
    (hstop : outline.stop = text.length) {e : SyntaxError}
    (hsecond : parse second count opener = .error e)
    (hcause : e.cause.IsDecided ∨ e.cause = .unclosed) :
    parse (text ++ second) keyCount opener =
      .error (e.cause.locate (text ++ second) (text.length + e.offset)) := by
  obtain ⟨fault, hfault, rfl⟩ := (parse_eq_error_iff_outline ..).mp hsecond
  rw [parse_eq_error_iff_outline]
  refine ⟨fault.advance text.length, ?_, ?_⟩
  · -- Only a fault within a layer has such a cause.
    obtain ⟨failure, hfailure, rfl⟩ := Sweep.failure_of_cause hfault (hcause.imp_right .inl)
    rw [sweep_append h hstop, Sweep.advance, hfailure]
    rfl
  · rw [Fault.advance_of_cause _ hcause]
    rfl

end

/-! ## What two texts mean together -/

/-- A text that parses does so without what comes after its last layer. If nothing does, another
text behind it means there what it means on its own: layers that follow, or a fault. -/
theorem parse_concatenated {opener text : Text} {keyCount : Option Int} {outline : Outline}
    (h : parse text keyCount opener = .ok outline) :
    parse (text.take outline.stop) keyCount opener = .ok outline ∧
      (outline.stop = text.length →
        ∀ second, Composes opener keyCount text outline second) := by
  refine ⟨?_, fun hstop second => ⟨?_, ?_, ?_, ?_⟩⟩
  · obtain ⟨source, size, hfits, hcount, rfl, rfl⟩ := (parse_eq_ok_iff ..).mp h
    have htail : ¬ marker opener <:+: ([] : Text) := by simp [marker]
    refine (parse_eq_ok_iff ..).mpr ⟨⟨source.passages, []⟩, size,
      ⟨hfits.passages_ne_nil, hfits.passages, hfits.size, htail⟩, hcount, ?_, rfl⟩
    rw [Source.text, Source.outline, List.take_left, Source.text, List.append_nil]
  · exact parse_append_bare h hstop
  · exact fun count later => parse_append_even h hstop
  · exact fun count later => parse_append_uneven h hstop
  · exact fun count e => parse_append_faulty h hstop

end

open Usual

/-- A layer of two keys, with a comment, another layer, a smaller one, and a fault behind it. -/
theorem parse_concatenated_two_keys :
    parse "K(A, f(1)) // ,".toList none "K".toList =
      .ok ⟨[[.word ['A'] 2 3, .call ['f'] [.word ['1'] 7 8] 5 9 "f(1)".toList]], 10⟩ ∧
    parse "K(A, f(1))".toList none "K".toList =
      .ok ⟨[[.word ['A'] 2 3, .call ['f'] [.word ['1'] 7 8] 5 9 "f(1)".toList]], 10⟩ ∧
    parse "K(A, f(1)) // f(2)".toList none "K".toList =
      .ok ⟨[[.word ['A'] 2 3, .call ['f'] [.word ['1'] 7 8] 5 9 "f(1)".toList]], 10⟩ ∧
    parse "K(A, f(1)) K(B, C)".toList none "K".toList =
      .ok ⟨[[.word ['A'] 2 3, .call ['f'] [.word ['1'] 7 8] 5 9 "f(1)".toList],
        [.word ['B'] 13 14, .word ['C'] 16 17]], 18⟩ ∧
    (∃ offset : Nat, parse "K(A, f(1)) K(B)".toList none "K".toList =
      .error (Cause.locate (.unevenLayers 2 1 1) "K(A, f(1)) K(B)".toList offset)) ∧
    parse "K(A, f(1)) K(B, )".toList none "K".toList =
      .error (Cause.missingToken.locate "K(A, f(1)) K(B, )".toList 16) := by
  have hlong : parse "K(A, f(1)) // ,".toList none "K".toList =
      .ok ⟨[[.word ['A'] 2 3, .call ['f'] [.word ['1'] 7 8] 5 9 "f(1)".toList]], 10⟩ := by
    decide +kernel
  -- The comment behind the end is not needed to parse what stands before it.
  obtain ⟨htext, -⟩ := parse_concatenated hlong
  have hcomposes (second : Text) := (parse_concatenated htext).2 (by decide) second
  have hbare := (hcomposes " // f(2)".toList).bare (by decide)
  have heven : parse " K(B, C)".toList none "K".toList =
      .ok ⟨[[.word ['B'] 3 4, .word ['C'] 6 7]], 8⟩ := by decide +kernel
  have huneven : parse " K(B)".toList none "K".toList = .ok ⟨[[.word ['B'] 3 4]], 5⟩ := by
    decide +kernel
  obtain ⟨gap, -, -, -, hplace⟩ := (hcomposes _).uneven none _ huneven (by decide)
  have hfaulty : parse " K(B, )".toList none "K".toList =
      .error (Cause.missingToken.locate " K(B, )".toList 6) := by decide +kernel
  exact ⟨hlong, htext, hbare, (hcomposes _).even none _ heven rfl, ⟨_, hplace⟩,
    (hcomposes _).faulty none _ hfaulty (.inl trivial)⟩

end Keymap
