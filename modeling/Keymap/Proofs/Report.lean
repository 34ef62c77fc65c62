import Keymap.Proofs.Concatenation
import Keymap.Proofs.Lines

/-!
# Reports of errors

A report is made for the eye: a headline, the source line and a caret below the character in
question, and a hint if there is one. None of these parts may break into lines of its own, whatever
text the message quotes, and the caret must not stand beside the character. Both hold of every
error that parsing reports, since its offset lies in the text or at the end of it.

## Key results

- `SyntaxError.lines_report` — a report has the lines that it is made of
- `Sweep.offset_le_of_outline_error` — no fault lies outside the text
- `located_and_reported` — where offsets are, in which order, and how errors are reported there
-/

namespace Keymap

/-! ## Parts that stay on one line -/

theorem Text.newline_not_mem_ofNat (n : Nat) : '\n' ∉ Text.ofNat n := by
  intro h
  exact absurd (Text.isDigit_of_mem_ofNat h) (by decide)

theorem Text.newline_not_mem_ofInt (n : Int) : '\n' ∉ Text.ofInt n := by
  cases n with
  | ofNat n => exact newline_not_mem_ofNat n
  | negSucc n =>
    rw [ofInt, List.mem_cons, not_or]
    exact ⟨by decide, newline_not_mem_ofNat (n + 1)⟩

theorem Location.newline_not_mem_render (location : Location) : '\n' ∉ location.render := by
  simp [render, Text.newline_not_mem_ofInt]

/-- A message stays on one line if the texts do that it gives as they are. Tokens and names are
quoted, and may hold anything. -/
theorem Cause.newline_not_mem_message {cause : Cause}
    (hopener : ∀ name, cause = .noInvocation name → '\n' ∉ name)
    (hstated : ∀ message, cause ≠ .stated message) : '\n' ∉ cause.message := by
  -- The equations of the wordings are not needed one by one.
  unfold message
  cases cause with
  | noInvocation name => simp [hopener name rfl]
  | blankInName name | blankInKey name => simp [Text.newline_not_mem_quoted]
  | unevenLayers _ _ _ | wrongKeyCount _ _ => simp [Text.newline_not_mem_ofInt]
  | missingToken | missingName | unclosed | tooDeep => simp
  | stated message => exact absurd rfl (hstated message)

theorem Cause.newline_not_mem_hint {cause : Cause} : ∀ hint ∈ cause.hint?, '\n' ∉ hint := by
  cases cause <;> simp [hint?]

/-! ## The lines of a report -/

/-- A report has the lines that it is made of, if each of them stays on one line. -/
theorem SyntaxError.lines_report {e : SyntaxError} (h : ∀ line ∈ e.reportLines, '\n' ∉ line) :
    e.report.lines = e.reportLines :=
  List.splitOn_intercalate '\n' h (List.cons_ne_nil _ _)

/-- The hint that goes with a cause is given as the last line. -/
theorem Cause.advice_locate (cause : Cause) (text : Text) (offset : Int) :
    (cause.locate text offset).advice = cause.hint?.toList.map ("hint: ".toList ++ ·) := by
  cases cause <;> rfl

/-- The lines of a report with its surroundings: headline, source line, caret and hint. -/
theorem Cause.lines_report_locate {cause : Cause} (text : Text) (offset : Int)
    (h : '\n' ∉ cause.message) :
    (cause.locate text offset).report.lines =
      (cause.locate text offset).headline :: ("    ".toList ++ text.lineAt offset) ::
        (List.replicate (4 + (text.lineBefore (text.nearest offset)).length) ' ' ++ ['^']) ::
        cause.hint?.toList.map ("hint: ".toList ++ ·) := by
  have hparts : (cause.locate text offset).reportLines =
      (cause.locate text offset).headline :: ("    ".toList ++ text.lineAt offset) ::
        (List.replicate (4 + (text.lineBefore (text.nearest offset)).length) ' ' ++ ['^']) ::
        cause.hint?.toList.map ("hint: ".toList ++ ·) := by
    rw [SyntaxError.reportLines, excerpt_locate, advice_locate]
    rfl
  rw [SyntaxError.lines_report, hparts]
  -- No part holds a line feed.
  have hhint : ∀ line ∈ cause.hint?.toList.map ("hint: ".toList ++ ·), '\n' ∉ line := by
    intro line hline
    obtain ⟨hint, hmem, rfl⟩ := List.mem_map.mp hline
    simp [cause.newline_not_mem_hint hint (by simpa using hmem)]
  simp only [hparts, List.forall_mem_cons]
  refine ⟨?headline, ?source, ?caret, hhint⟩
  case headline =>
    show '\n' ∉ (Location.ofOffset text offset).render ++ ": error: ".toList ++ cause.message
    simp [Location.newline_not_mem_render, h]
  case source => simp [text.newline_not_mem_lineAt offset]
  case caret => simp [List.mem_replicate]

/-! ## What stands above the caret -/

/-- The character at an offset stands on its line, behind what is before it on the line. -/
theorem Text.getElem?_lineAt {text : Text} {offset : Nat} {c : Char} (h : text[offset]? = some c)
    (hc : c ≠ '\n') : (text.lineAt offset)[(text.lineBefore (text.nearest offset)).length]? =
      some c := by
  obtain ⟨hlt, hget⟩ := List.getElem?_eq_some_iff.mp h
  have hplace : text.nearest offset = offset := Nat.min_eq_left (Nat.le_of_lt hlt)
  have hafter : text.lineAfter offset = c :: text.lineAfter (offset + 1) := by
    rw [lineAfter, lineAfter, List.drop_eq_getElem_cons hlt, hget]
    exact List.takeWhile_cons_of_pos (by simpa using hc)
  rw [lineAt, hplace, List.getElem?_append_right (Nat.le_refl _), Nat.sub_self, hafter]
  rfl

/-- At a line feed and at the end of the text, all of a line is before the offset. -/
theorem Text.lineAt_eq_lineBefore {text : Text} {offset : Nat}
    (h : text[offset]? = none ∨ text[offset]? = some '\n') :
    text.lineAt offset = text.lineBefore (text.nearest offset) := by
  have hafter : text.lineAfter (text.nearest offset) = [] := by
    rcases h with hend | hfeed
    · have hle := List.getElem?_eq_none_iff.mp hend
      rw [lineAfter, List.drop_eq_nil_of_le (by rw [nearest]; omega), List.takeWhile_nil]
    · obtain ⟨hlt, hget⟩ := List.getElem?_eq_some_iff.mp hfeed
      have hplace : text.nearest offset = offset := Nat.min_eq_left (Nat.le_of_lt hlt)
      rw [hplace, lineAfter, List.drop_eq_getElem_cons hlt, hget,
        List.takeWhile_cons_of_neg (by decide)]
  rw [lineAt, hafter, List.append_nil]

/-! ## Faults within the text -/

namespace State

variable {s : State} {fault : Fault} {failure : Failure}

/-- Flushing fails only because of a blank. -/
theorem exists_token_of_flush_error {stop : Nat} (h : s.flush stop = .error fault) :
    ∃ token, fault.cause = .blankInKey token := by
  simp only [flush, fill] at h
  split at h
  · cases h
  · split at h
    · exact ⟨_, congrArg Fault.cause (Except.error.inj h).symm⟩
    · split at h
      · cases h
      · exact ⟨_, congrArg Fault.cause (Except.error.inj h).symm⟩

/-- An argument never ends too deep. -/
theorem endArgument_ne_tooDeep {offset : Nat} (h : s.endArgument offset = .error fault) :
    fault.cause ≠ .tooDeep := by
  rcases endArgument_eq_error h with hflush | ⟨frame, -, -, rfl⟩
  · obtain ⟨token, htoken⟩ := exists_token_of_flush_error hflush
    rw [htoken]
    exact nofun
  · exact nofun

variable [Machine]

/-- Only a parenthesis that opens a call can be too deep, and it is there that this is reported. -/
theorem cursor_of_code_tooDeep {c : Char} (h : s.code c = .error failure)
    (hcause : failure.fault.cause = .tooDeep) (hpos : 0 < s.pos) :
    failure.fault.offset + 1 = failure.cursor := by
  obtain ⟨fault, hfault, rfl⟩ := (mapError_eq_error_iff ..).mp h
  show fault.offset + 1 = s.pos
  replace hcause : fault.cause = .tooDeep := hcause
  split at hfault
  · -- A comma ends an argument.
    simp only [separate, bind, Except.bind] at hfault
    split at hfault
    · rename_i fault' hend
      obtain rfl := Except.error.inj hfault
      exact absurd hcause (endArgument_ne_tooDeep hend)
    · cases hfault
  · simp only [openCall] at hfault
    split at hfault
    · obtain rfl := Except.error.inj hfault
      cases hcause
    · split at hfault
      · obtain rfl := Except.error.inj hfault
        cases hcause
      · split at hfault
        · obtain rfl := Except.error.inj hfault
          show s.pos - 1 + 1 = s.pos
          omega
        · cases hfault
  · -- A parenthesis that closes ends an argument, and makes one.
    rcases close_eq_error hfault with hend | ⟨_, _, _, _, _, _, -, -, -, rfl⟩
    · exact absurd hcause (endArgument_ne_tooDeep hend)
    · cases hcause
  all_goals cases hfault

/-- A step finds a call too deep at the character that it reads. -/
theorem cursor_of_step_tooDeep {c : Char} (h : s.step c = .error failure)
    (hcause : failure.fault.cause = .tooDeep) : failure.fault.offset + 1 = failure.cursor := by
  cases hmode : s.mode.inCode with
  | false =>
    obtain ⟨t, hstep⟩ := step_comment hmode c
    rw [hstep] at h
    cases h
  | true =>
    cases hcompletes : s.mode.completes c with
    | false =>
      rw [step_code hmode hcompletes] at h
      exact cursor_of_code_tooDeep h hcause (Nat.succ_pos _)
    | true =>
      -- Before a pair only an argument ends.
      rw [step_pair hcompletes, skip] at h
      split at h
      · cases h
      · rename_i fault hflush
        obtain rfl := Except.error.inj h
        obtain ⟨token, htoken⟩ := exists_token_of_flush_error hflush
        rw [htoken] at hcause
        cases hcause

/-- Scanning finds a call too deep at the character that it has read last. -/
theorem cursor_of_scan_tooDeep {text : Text} (h : s.scan text = .error failure)
    (hcause : failure.fault.cause = .tooDeep) : failure.fault.offset + 1 = failure.cursor := by
  induction text generalizing s with
  | nil =>
    obtain rfl := Except.error.inj h
    cases hcause
  | cons c rest ih =>
    rw [scan_cons] at h
    split at h
    · rename_i failure' hstep
      obtain rfl := Except.error.inj h
      exact cursor_of_step_tooDeep hstep hcause
    · cases h
    · exact ih h

end State

section

variable [Machine]

/-- A call that is too deep opens within the text. -/
theorem offset_lt_of_tooDeep {opener text : Text} {failure : Failure}
    (h : (sweep opener 0 text).failure = some failure) (hcause : failure.fault.cause = .tooDeep) :
    failure.fault.offset < text.length := by
  obtain ⟨passages, gap, body, rfl, -, -, hscan⟩ := exists_of_sweep_failure h
  -- The call is the last character that has been read, and the cursor is not past the end.
  have hcursor := State.cursor_of_scan_tooDeep hscan hcause
  have hend := (State.cursor_of_scan_error hscan).2.2
  simp only [State.initial] at hend
  simp only [marker, List.length_append, List.length_singleton]
  omega

/-- No fault lies outside the text, and the only text that it gives as it is is the opener. -/
theorem Sweep.offset_le_of_outline_error {opener text : Text} {keyCount : Option Int}
    {fault : Fault} (h : (sweep opener 0 text).outline opener keyCount = .error fault) :
    fault.offset ≤ text.length ∧ (∀ name, fault.cause = .noInvocation name → name = opener) ∧
      ∀ message, fault.cause ≠ .stated message := by
  by_cases hdeep : fault.cause = .tooDeep
  · refine ⟨?_, fun name hname => ?_, fun message hmessage => ?_⟩
    · -- Only scanning finds calls too deep.
      obtain ⟨failure, hfailure, rfl⟩ := Sweep.failure_of_cause h (by simp [hdeep])
      exact Nat.le_of_lt (offset_lt_of_tooDeep hfailure hdeep)
    · rw [hdeep] at hname
      cases hname
    · rw [hdeep] at hmessage
      cases hmessage
  · have hdesignates := outline_error_designates h hdeep
    refine ⟨?_, fun name hname => ?_, fun message hmessage => ?_⟩
    · by_cases hnone : fault.cause = .noInvocation opener
      · rw [hnone] at hdesignates
        obtain ⟨-, -, hzero⟩ := hdesignates
        omega
      · exact Nat.le_of_lt (hdesignates.lt_length hnone)
    · rw [hname] at hdesignates
      exact hdesignates.1
    · rw [hmessage] at hdesignates
      exact hdesignates

/-! ## Errors in a text -/

/-- How an error at an offset of a text is reported, with a caret below the character at the
offset. -/
structure Reported (text : Text) (e : SyntaxError) (offset caret : Nat) : Prop where
  offset_eq : e.offset = offset
  offset_le : offset ≤ text.length
  location_eq : e.location = some (.ofOffset text offset)
  /-- There are three lines, or four with a hint. -/
  lines_eq : e.report.lines = e.headline :: ("    ".toList ++ text.lineAt offset) ::
    (List.replicate caret ' ' ++ ['^']) :: e.hint.toList.map ("hint: ".toList ++ ·)
  /-- The caret stands below the character at the offset. -/
  caret_at : ∀ c, text[offset]? = some c → c ≠ '\n' →
    ("    ".toList ++ text.lineAt offset)[caret]? = some c
  /-- If there is none on the line, the caret stands just past the line. -/
  caret_past : text[offset]? = none ∨ text[offset]? = some '\n' →
    caret = ("    ".toList ++ text.lineAt offset).length

omit [Machine] in
/-- An error in a text is reported with the line it is on, and with a caret where it is. -/
theorem Cause.reported_locate {cause : Cause} {text : Text} {offset : Nat}
    (hoffset : offset ≤ text.length) (h : '\n' ∉ cause.message) :
    Reported text (cause.locate text offset) offset
      (4 + (text.lineBefore (text.nearest offset)).length) := by
  refine { offset_eq := rfl, offset_le := hoffset, location_eq := rfl,
           lines_eq := lines_report_locate text offset h, caret_at := ?inside, caret_past := ?past }
  case inside =>
    intro c hchar hc
    rw [List.getElem?_append_right (Nat.le_add_right 4 _)]
    show (text.lineAt offset)[4 + _ - 4]? = some c
    rw [Nat.add_sub_cancel_left]
    exact Text.getElem?_lineAt hchar hc
  case past =>
    intro hend
    rw [List.length_append, Text.lineAt_eq_lineBefore hend]
    rfl

/-- In every text, each offset is located on its line and in its column, later offsets at later
places, so no two at the same; and each error that parsing reports has the lines of its report,
with the caret where its offset is. -/
theorem located_and_reported (text : Text) :
    (∀ offset, Located text offset (.ofOffset text offset)) ∧
      (∀ offset later : Int, 0 ≤ offset → offset < later → later ≤ text.length →
        Location.position text offset < Location.position text later) ∧
      (∀ offset other : Int, 0 ≤ offset → offset ≤ text.length → 0 ≤ other →
        other ≤ text.length → Location.position text offset = Location.position text other →
        offset = other) ∧
      ∀ keyCount opener e, '\n' ∉ opener → parse text keyCount opener = .error e →
        ∃ offset caret, Reported text e offset caret := by
  refine ⟨Location.located text, fun _ _ => Location.position_lt_position,
    fun _ _ => Location.eq_of_position_eq, ?_⟩
  intro keyCount opener e hopener h
  obtain ⟨fault, hfault, rfl⟩ := (parse_eq_error_iff_outline ..).mp h
  obtain ⟨hoffset, hname, hstated⟩ := Sweep.offset_le_of_outline_error hfault
  have hmessage : '\n' ∉ fault.cause.message :=
    Cause.newline_not_mem_message (fun name heq => hname name heq ▸ hopener) hstated
  exact ⟨_, _, Cause.reported_locate hoffset hmessage⟩

end

open Usual

/-- A key that a line feed breaks is reported at the line feed, with the caret past the line; the
offset after another line feed lies on the next line. -/
theorem located_and_reported_broken_key :
    let text := "K(A,\n B\nC)".toList
    let e := (Cause.blankInKey "B\nC".toList).locate text 7
    parse text none "K".toList = .error e ∧ Reported text e 7 6 ∧
      Location.position text 4 < Location.position text 5 := by
  intro text e
  have hparse : parse text none "K".toList = .error e := by decide +kernel
  obtain ⟨-, hordered, -, hreported⟩ := located_and_reported text
  obtain ⟨offset, caret, h⟩ := hreported none "K".toList e (by decide) hparse
  obtain rfl : 7 = offset := Int.ofNat_inj.mp h.offset_eq
  obtain rfl : caret = 6 := h.caret_past (.inr rfl)
  exact ⟨hparse, h, hordered 4 5 (by decide) (by decide) (by decide +kernel)⟩

end Keymap
