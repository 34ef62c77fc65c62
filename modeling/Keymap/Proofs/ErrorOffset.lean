import Keymap.Proofs.Scan.Fault

/-!
# The offsets of errors

A text that does not parse is reported with one cause and one offset, and the character at the
offset is the one that the cause is about. A fault within a layer comes from the scanner, with the
layers before it complete. Otherwise the whole text is swept, and the layers that were found are
compared with each other and with the number that is asked for.

## Key results

- `exists_of_sweep_failure` — a sweep fails within a layer, behind layers that are complete
- `exists_of_uneven?` — the first layer that differs has layers of one size before it
- `parse_error_designates` — every error stands where it says
-/

namespace Keymap

/-! ## Sweeps that fail -/

/-- A sweep fails where scanning a layer does, behind passages that were read. -/
theorem exists_of_sweep_failure [Machine] {opener text : Text} {pos : Nat} {failure : Failure}
    (h : (sweep opener pos text).failure = some failure) :
    ∃ passages gap body, text = passagesText opener passages ++ (gap ++ marker opener ++ body) ∧
      (∀ passage ∈ passages, passage.Fits opener) ∧ ¬ marker opener <:+: gap ++ opener ∧
      (State.initial (pos + (passagesText opener passages).length + gap.length +
        opener.length)).scan body = .error failure := by
  have hmarker : marker opener ≠ [] := by simp [marker]
  -- By induction on the length of the text, since each passage makes it shorter.
  induction hlength : text.length using Nat.strongRecOn generalizing pos text with
  | _ length ih =>
    cases hseek : seek (marker opener) pos text with
    | none =>
      rw [sweep_none hseek] at h
      cases h
    | some place =>
      obtain ⟨start, body⟩ := place
      obtain ⟨gap, rfl, rfl, hgap⟩ := (seek_eq_some_iff ..).mp hseek
      cases hscan : (State.initial (pos + gap.length + opener.length)).scan body with
      | error failure' =>
        rw [sweep_error hseek hscan] at h
        obtain rfl := Option.some.inj h
        exact ⟨[], gap, body, rfl, by simp, hgap, hscan⟩
      | ok closed =>
        rw [sweep_ok hseek hscan] at h
        -- The passage is taken off the text.
        have hshort : closed.rest.length < length := by
          rw [← hlength]
          exact Nat.lt_trans (State.scan_rest_length_lt hscan) (length_lt_of_seek hmarker hseek)
        obtain ⟨passage, hfits, hpassage, hinvocation⟩ := Passage.exists_of_scan hgap hscan
        have hstop : closed.stop = pos + (passage.text opener).length :=
          (congrArg Invocation.stop hinvocation).symm
        obtain ⟨passages, gap', body', hrest, hall, hgap', hscan'⟩ := ih _ hshort h rfl
        refine ⟨passage :: passages, gap', body', ?_, List.forall_mem_cons.mpr ⟨hfits, hall⟩, hgap',
          ?_⟩
        · rw [hpassage, hrest, passagesText_cons, List.append_assoc (passage.text opener)]
        · rw [passagesText_cons, List.length_append, ← Nat.add_assoc, ← hstop]
          exact hscan'

/-- A sweep that fails does so at a place that its fault designates. -/
theorem sweep_failure_designates [Machine] {opener text : Text} {keyCount : Option Int}
    {failure : Failure} (h : (sweep opener 0 text).failure = some failure)
    (hcause : failure.fault.cause ≠ .tooDeep) :
    Designates opener text keyCount failure.fault.offset failure.fault.cause := by
  obtain ⟨passages, gap, body, rfl, hfits, hgap, hscan⟩ := exists_of_sweep_failure h
  let front := passagesText opener passages ++ gap ++ opener
  have hparen : 0 + (passagesText opener passages).length + gap.length + opener.length =
      front.length := by
    simp only [front, List.length_append]
    omega
  have htext : passagesText opener passages ++ (gap ++ marker opener ++ body) =
      front ++ '(' :: body := by
    simp [front, marker]
  rw [hparen] at hscan
  rw [htext]
  exact State.scan_designates (fun _ => .layer hfits hgap) hscan hcause

/-! ## Layers of different sizes -/

/-- The layer that is reported is the first one that differs. -/
theorem exists_of_uneven? {opener : Text} {expected number pos : Nat} {passages : List Passage}
    {fault : Fault} (h : uneven? expected number (invocations opener pos passages) = some fault) :
    ∃ first passage later, passages = first ++ passage :: later ∧
      (∀ p ∈ first, p.args.length = expected) ∧ passage.args.length ≠ expected ∧
      fault = ⟨.unevenLayers expected passage.args.length (number + first.length : Nat),
        pos + (passagesText opener first).length + passage.gap.length⟩ := by
  induction passages generalizing number pos with
  | nil => cases h
  | cons passage rest ih =>
    have hkeys : (passage.invocation opener pos).keys.length = passage.args.length :=
      ArgumentList.length_keys ..
    rw [invocations, uneven?, hkeys] at h
    split at h
    · rename_i heq
      obtain ⟨first, differing, later, rfl, hfirst, hne, rfl⟩ := ih h
      -- One passage more stands before the one that differs.
      refine ⟨passage :: first, differing, later, rfl, List.forall_mem_cons.mpr ⟨heq, hfirst⟩, hne,
        ?_⟩
      rw [passagesText_cons, List.length_append, List.length_cons, Nat.add_right_comm number,
        Nat.add_assoc number, Nat.add_assoc pos]
    · rename_i hne
      exact ⟨[], passage, rest, rfl, by simp, hne, (Option.some.inj h).symm⟩

/-- What a sweep without an outline comes to. -/
theorem Sweep.outline_eq_error {sweep : Sweep} {opener : Text} {keyCount : Option Int}
    {fault : Fault} (h : sweep.outline opener keyCount = .error fault) :
    (∃ failure, sweep.failure = some failure ∧ fault = failure.fault) ∨
      sweep.failure = none ∧ sweep.found = [] ∧ fault = ⟨.noInvocation opener, 0⟩ ∨
      ∃ first later, sweep.failure = none ∧ sweep.found = first :: later ∧
        (uneven? first.keys.length 0 sweep.found = some fault ∨
          uneven? first.keys.length 0 sweep.found = none ∧
            ∃ expected, keyCount = some expected ∧ expected ≠ first.keys.length ∧
              fault = ⟨.wrongKeyCount expected first.keys.length, first.start⟩) := by
  obtain ⟨found, failure⟩ := sweep
  cases failure with
  | some failure => exact .inl ⟨failure, rfl, (Except.error.inj h).symm⟩
  | none =>
    cases found with
    | nil => exact .inr (.inl ⟨rfl, rfl, (Except.error.inj h).symm⟩)
    | cons first later =>
      -- All layers have been read, so only their sizes can be at fault.
      refine .inr (.inr ⟨first, later, rfl, rfl, ?_⟩)
      simp only [Sweep.outline] at h
      split at h
      · rename_i fault' hfault
        obtain rfl := Except.error.inj h
        exact .inl hfault
      · rename_i heven
        -- All layers agree, so it is their number of keys that is wrong.
        refine .inr ⟨heven, ?_⟩
        split at h
        · rename_i expected
          split at h
          · cases h
          · rename_i hne
            exact ⟨expected, rfl, hne, (Except.error.inj h).symm⟩
        · cases h

section

variable [Machine]

/-- A layer that differs from the first one is where it is reported. -/
theorem designates_of_uneven? {opener tail : Text} {keyCount : Option Int} {passage : Passage}
    {rest : List Passage} {fault : Fault} (hfits : ∀ p ∈ passage :: rest, p.Fits opener)
    (htail : ¬ marker opener <:+: tail)
    (h : uneven? passage.args.length 0 (invocations opener 0 (passage :: rest)) = some fault) :
    Designates opener (passagesText opener (passage :: rest) ++ tail) keyCount fault.offset
      fault.cause := by
  obtain ⟨first, differing, later, heq, hfirst, hne, rfl⟩ := exists_of_uneven? h
  have hsizes : ∀ p ∈ first, (p.args.length : Int) = passage.args.length :=
    fun p hp => congrArg _ (hfirst p hp)
  refine ⟨first, later, differing, tail, by simp [heq], by rwa [← heq], htail, ?_, ?_, hsizes, rfl,
    Int.ofNat_inj.not.mpr hne, by rw [Nat.zero_add]⟩
  · show 0 + (passagesText opener first).length + differing.gap.length = _
    rw [Nat.zero_add]
  · -- The first layer of all does not differ from itself.
    rintro rfl
    obtain ⟨rfl, -⟩ := List.cons.inj heq
    exact hne rfl

omit [Machine] in
/-- Passages with layers that agree have as many arguments each. -/
theorem forall_length_of_uneven? {opener : Text} {expected number pos : Nat}
    {passages : List Passage}
    (h : uneven? expected number (invocations opener pos passages) = none) :
    ∀ passage ∈ passages, passage.args.length = expected := by
  intro passage hpassage
  obtain ⟨first, later, rfl⟩ := List.append_of_mem hpassage
  have hmem : passage.invocation opener (pos + (passagesText opener first).length) ∈
      invocations opener pos (first ++ passage :: later) := by
    rw [invocations_append, invocations]
    simp
  have hsize := (uneven?_eq_none_iff ..).mp h _ hmem
  rwa [Passage.invocation, Passage.keys, ArgumentList.length_keys] at hsize

/-- Without an outline a text has a fault, at the offset that the fault designates. -/
theorem outline_error_designates {opener text : Text} {keyCount : Option Int} {fault : Fault}
    (h : (sweep opener 0 text).outline opener keyCount = .error fault)
    (hcause : fault.cause ≠ .tooDeep) :
    Designates opener text keyCount fault.offset fault.cause := by
  -- The passages of a text that is swept to its end.
  have hpassages (hnone : (sweep opener 0 text).failure = none) :
      ∃ passages tail, text = passagesText opener passages ++ tail ∧
        (∀ passage ∈ passages, passage.Fits opener) ∧ ¬ marker opener <:+: tail ∧
        (sweep opener 0 text).found = invocations opener 0 passages :=
    (sweep_eq_iff ..).mp (by rw [← hnone])
  rcases Sweep.outline_eq_error h with ⟨failure, hfailure, rfl⟩ | ⟨hnone, hfound, rfl⟩ |
    ⟨first, later, hnone, hfound, huneven⟩
  · exact sweep_failure_designates hfailure hcause
  · obtain ⟨passages, tail, htext, -, htail, hinvocations⟩ := hpassages hnone
    rw [hfound] at hinvocations
    cases passages with
    | nil =>
      obtain rfl : text = tail := htext
      exact ⟨rfl, htail, rfl⟩
    | cons passage rest => cases hinvocations
  · obtain ⟨passages, tail, rfl, hfits, htail, hinvocations⟩ := hpassages hnone
    rw [hinvocations] at hfound huneven
    cases passages with
    | nil => cases hfound
    | cons passage rest =>
      obtain ⟨rfl, rfl⟩ := List.cons.inj hfound
      have hkeys : (passage.invocation opener 0).keys.length = passage.args.length :=
        ArgumentList.length_keys ..
      rw [hkeys] at huneven
      rcases huneven with huneven | ⟨heven, expected, rfl, hne, rfl⟩
      · exact designates_of_uneven? hfits htail huneven
      · -- All layers agree, but not with the number that is asked for.
        have hsizes : ∀ p ∈ passage :: rest, (p.args.length : Int) = passage.args.length :=
          fun p hp => congrArg _ (forall_length_of_uneven? heven p hp)
        exact ⟨passage, rest, tail, by rw [passagesText_cons], hfits, htail, Nat.zero_add _,
          hsizes, rfl, Ne.symm hne⟩

/-! ## Errors -/

/-- A text that does not parse has a fault at the offset that is reported: the offset lies in the
text, unless there is no layer in it at all, and the token that is reported for a blank within a
key stands around it. -/
theorem parse_error_designates {text opener : Text} {keyCount : Option Int} {e : SyntaxError}
    (h : parse text keyCount opener = .error e) (hcause : e.cause ≠ .tooDeep) :
    ∃ offset : Nat, e.offset = offset ∧ Designates opener text keyCount offset e.cause ∧
      (e.cause ≠ .noInvocation opener → offset < text.length) ∧
      ∀ token, e.cause = .blankInKey token → ∃ start, start < offset ∧
        offset < start + token.length ∧ text.slice start (start + token.length) = token := by
  simp only [parse, readText] at h
  obtain ⟨fault, hfault, rfl⟩ := (State.mapError_eq_error_iff ..).mp h
  have hdesignates : Designates opener text keyCount fault.offset fault.cause :=
    outline_error_designates hfault hcause
  refine ⟨fault.offset, rfl, hdesignates, hdesignates.lt_length, fun token htoken => ?_⟩
  have hcause' : fault.cause = .blankInKey token := htoken
  rw [hcause'] at hdesignates
  exact hdesignates.exists_slice

end

open Usual

/-- The comma that follows nothing but a comment, in a call in a layer. -/
theorem parse_error_missing_token :
    ∃ e, parse "K(A, f(/*,*/, B))".toList none "K".toList = .error e ∧ e.cause = .missingToken ∧
      e.offset = 12 ∧ LacksToken "K".toList "K(A, f(/*,*/, B))".toList 12 := by
  have hparse : parse "K(A, f(/*,*/, B))".toList none "K".toList =
      .error (Cause.missingToken.locate "K(A, f(/*,*/, B))".toList 12) := by decide +kernel
  obtain ⟨offset, hoffset, hdesignates, -⟩ := parse_error_designates hparse (by decide)
  obtain rfl : 12 = offset := Int.ofNat_inj.mp hoffset
  exact ⟨_, hparse, rfl, rfl, hdesignates⟩

end Keymap
