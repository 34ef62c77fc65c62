import Keymap.Proofs.Concatenation
import Keymap.Proofs.Scan.Descent
import Keymap.Reader

/-!
# Reading on

A reader may be asked to read again, whatever the readings before came to. They leave a cursor that
may stand anywhere: behind the last layer, within a call that had a fault, or within a comment. They
also leave a count and a stack of parentheses, which may be those of calls that were never closed.
But wherever a layer is found both begin anew, so a reading is what a reader of the rest of the text
would give. Each reading that finds a layer passes a marker, so only so many of them find one.

## Key results

- `Reader.sweeps_read` — a reading gives what a sweep from the cursor on gives
- `Reader.outcome_read`, `Reader.pos_read_drop` — and so what a reader of the rest of the text gives
- `cursor_of_seek` — a sweep passes the first marker and ends within the text
- `exists_after` — each reading leaves one marker less ahead
- `read_resumes` — what a reading gives after any number of others
-/

namespace Keymap

/-! ## Markers ahead -/

/-- At how many places of a text a mark stands. -/
def occurrences (mark text : Text) : Nat :=
  text.tails.countP mark.isPrefixOf

/-- A mark that stands nowhere occurs at no place. -/
theorem occurrences_eq_zero_iff (mark text : Text) :
    occurrences mark text = 0 ↔ ¬ mark <:+: text := by
  simp only [occurrences, List.countP_eq_zero, List.mem_tails, List.isPrefixOf_iff_prefix,
    List.infix_iff_prefix_suffix, not_exists, not_and]
  exact forall_congr' fun _ => imp_not_comm

/-- The places in the text after a character, and the one at the character. -/
theorem occurrences_cons (mark : Text) (c : Char) (rest : Text) :
    occurrences mark (c :: rest) =
      occurrences mark rest + if mark.isPrefixOf (c :: rest) then 1 else 0 := by
  rw [occurrences, List.tails_cons, List.countP_cons]
  rfl

/-- Further on there are not more places. -/
theorem occurrences_drop_le (mark text : Text) {m n : Nat} (h : m ≤ n) :
    occurrences mark (text.drop n) ≤ occurrences mark (text.drop m) := by
  obtain ⟨k, rfl⟩ := Nat.exists_eq_add_of_le h
  induction k with
  | zero => exact Nat.le_refl _
  | succ k ih =>
    refine Nat.le_trans ?_ (ih (Nat.le_add_right m k))
    rw [← Nat.add_assoc, ← List.drop_drop]
    cases text.drop (m + k) with
    | nil => exact Nat.le_refl _
    | cons c rest =>
      rw [occurrences_cons]
      exact Nat.le_add_right _ _

/-- Behind a place at which the mark stands there are fewer. -/
theorem occurrences_drop_lt {mark text : Text} {place n : Nat} (hmark : mark ≠ [])
    (h : mark <+: text.drop place) (hn : place < n) :
    occurrences mark (text.drop n) < occurrences mark (text.drop place) := by
  have hle := occurrences_drop_le mark text hn
  have hlt : place < text.length := by
    rw [← Nat.not_le]
    intro hend
    rw [List.drop_eq_nil_of_le hend, List.prefix_nil] at h
    exact hmark h
  rw [List.drop_eq_getElem_cons hlt] at h ⊢
  rw [occurrences_cons, if_pos (List.isPrefixOf_iff_prefix.mpr h)]
  exact Nat.lt_succ_of_le hle

/-! ## The cursor -/

/-- A sweep that goes further on leaves the cursor further on. -/
theorem Sweep.cursor_advance (sweep : Sweep) (d pos : Nat) :
    (sweep.advance d).cursor (d + pos) = d + sweep.cursor pos := by
  obtain ⟨found, failure⟩ := sweep
  cases failure with
  | some failure => rfl
  | none =>
    simp only [advance, cursor, stop, List.getLast?_map, Option.map_none]
    cases found.getLast? <;> rfl

section

variable [Machine]

/-! ## Readings one after the other -/

namespace Reader

/-- The reader after a number of readings. -/
def after (r : Reader) : Nat → Reader
  | 0 => r
  | times + 1 => (r.after times).read.reader

/-- The first of several readings leaves the others to the reader after it. -/
theorem after_succ' (r : Reader) (times : Nat) :
    r.after (times + 1) = r.read.reader.after times := by
  induction times with
  | zero => rfl
  | succ times ih => rw [after, ih, after]

/-- Repeated reading gives what each of the readers gives in turn. -/
theorem readTimes_eq_map (r : Reader) (times : Nat) :
    r.readTimes times = (List.range times).map fun n => (r.after n).read := by
  induction times generalizing r with
  | zero => rfl
  | succ times ih =>
    rw [readTimes, ih, List.range_succ_eq_map, List.map_cons, List.map_map]
    simp only [Function.comp_def, after_succ']
    rfl

end Reader

/-! ## Passing a marker -/

/-- Where a marker is found, the sweep passes it, and ends within the text. -/
theorem cursor_of_seek {opener text body : Text} {pos start : Nat}
    (h : seek (marker opener) pos text = some (start, body)) :
    start + (marker opener).length ≤ (sweep opener pos text).cursor pos ∧
      (sweep opener pos text).cursor pos ≤ start + (marker opener).length + body.length := by
  -- By induction on the length of the text, since each layer makes it shorter.
  induction hlength : text.length using Nat.strongRecOn generalizing pos start text body with
  | _ length ih =>
    have hpos : (State.initial (start + opener.length)).pos = start + (marker opener).length := by
      rw [marker, List.length_append]
      rfl
    cases hscan : (State.initial (start + opener.length)).scan body with
    | error failure =>
      rw [sweep_error h hscan]
      obtain ⟨-, hstart, hend⟩ := State.cursor_of_scan_error hscan
      rw [hpos] at hstart hend
      exact ⟨hstart rfl, hend⟩
    | ok closed =>
      obtain ⟨hstart, hend⟩ := State.stop_of_scan hscan
      rw [sweep_ok h hscan, Sweep.cursor_cons]
      -- The sweep goes on behind the layer, and may find another one there.
      cases hseek : seek (marker opener) closed.stop closed.rest with
      | none =>
        rw [sweep_none hseek, Sweep.cursor_nil]
        omega
      | some place =>
        obtain ⟨start', body'⟩ := place
        have hshort : closed.rest.length < length := by
          rw [← hlength]
          exact Nat.lt_trans (State.scan_rest_length_lt hscan)
            (length_lt_of_seek (by simp [marker]) h)
        obtain ⟨hstart', hend'⟩ := ih _ hshort hseek rfl
        obtain ⟨gap, hrest, rfl, -⟩ := (seek_eq_some_iff ..).mp hseek
        have hrest' := congrArg List.length hrest
        simp only [List.length_append] at hrest'
        omega

/-! ## Reading from anywhere -/

/-- The error of a text that begins at the offset `d` of another one, as it is reported for that
one. That there is no layer at all is reported at the beginning, wherever that is. -/
def SyntaxError.within (text : Text) (d : Nat) (e : SyntaxError) : SyntaxError :=
  match e.cause with
  | .noInvocation opener => Cause.locate (.noInvocation opener) text 0
  | cause => cause.locate text (d + e.offset)

/-- That there is no layer at all is the fault at the beginning of a text. -/
theorem offset_of_noInvocation {opener opener' text : Text} {keyCount : Option Int} {fault : Fault}
    (h : (sweep opener 0 text).outline opener keyCount = .error fault)
    (hcause : fault.cause = .noInvocation opener') : fault.offset = 0 := by
  have hdesignates := outline_error_designates h (by simp [hcause])
  rw [hcause] at hdesignates
  exact hdesignates.2.2

/-- A fault of a text is located as it is in the text around it. -/
theorem within_locate {opener text rest : Text} {keyCount : Option Int} {fault : Fault}
    (h : (sweep opener 0 rest).outline opener keyCount = .error fault) (d : Nat) :
    (fault.cause.locate rest fault.offset).within text d =
      (fault.advance d).cause.locate text (fault.advance d).offset := by
  obtain ⟨cause, offset⟩ := fault
  cases cause with
  | noInvocation opener' =>
    obtain rfl : offset = 0 := offset_of_noInvocation h rfl
    rfl
  | _ => rfl

/-- What reading a text gives with each of its errors told. -/
def told (text : Text) (keyCount : Option Int) (opener : Text) :
    Except (Option SyntaxError) Outline :=
  (parse text keyCount opener).mapError some

namespace Reader

variable (r : Reader)

/-- Readings of the rest of the text stand further on. -/
theorem sweep_drop : sweep r.opener r.pos (r.text.drop r.pos) =
    (sweep r.opener 0 (r.text.drop r.pos)).advance r.pos := by
  rw [← sweep_advance, Nat.add_zero]

/-- A reading gives what a sweep from the cursor on gives, whatever the count and the stack are. -/
theorem sweeps_read :
    r.read.outcome = ((sweep r.opener r.pos (r.text.drop r.pos)).outline r.opener
        r.keyCount).mapError (fun fault => some (fault.cause.locate r.text fault.offset)) ∧
      r.read.reader.pos = (sweep r.opener r.pos (r.text.drop r.pos)).cursor r.pos := by
  obtain ⟨hfound, hstopped, hcursor⟩ := Descent.layers_eq_sweep r.opener r.text r.toCursor
  refine ⟨?_, hcursor⟩
  generalize hsweep : sweep r.opener r.pos (r.text.drop r.pos) = sweep at hfound hstopped ⊢
  obtain ⟨found, failure⟩ := sweep
  simp only [read, hfound, hstopped]
  cases failure with
  | none => rfl
  | some failure => rfl

/-- A fresh reader gives the outline or the error of the text, and always has an error to tell. -/
theorem outcome_read_ofText (text : Text) (keyCount : Option Int) (opener : Text) :
    (ofText text keyCount opener).read.outcome = told text keyCount opener := by
  rw [(sweeps_read _).1, told, parse, readText]
  simp only [ofText, List.drop_zero]
  cases (sweep opener 0 text).outline opener keyCount <;> rfl

/-- A reading gives what a reader of the rest of the text gives, further on. -/
theorem outcome_read : r.read.outcome =
    ((ofText (r.text.drop r.pos) r.keyCount r.opener).read.outcome.map
      (Outline.advance r.pos)).mapError (Option.map (SyntaxError.within r.text r.pos)) := by
  rw [(sweeps_read r).1, (sweeps_read _).1]
  simp only [ofText, List.drop_zero]
  rw [sweep_drop, Sweep.outline_advance]
  cases houtline : (sweep r.opener 0 (r.text.drop r.pos)).outline r.opener r.keyCount with
  | ok outline => rfl
  | error fault => exact congrArg (Except.error ∘ some) (within_locate houtline r.pos).symm

/-- A reading leaves the cursor where a reader of the rest of the text leaves it, further on. -/
theorem pos_read_drop : r.read.reader.pos =
    r.pos + (ofText (r.text.drop r.pos) r.keyCount r.opener).read.reader.pos := by
  rw [(sweeps_read r).2, (sweeps_read _).2, sweep_drop]
  exact Sweep.cursor_advance _ r.pos 0

/-- Without a marker ahead a reading finds nothing and stays where it is. -/
theorem read_of_not_infix (h : ¬ marker r.opener <:+: r.text.drop r.pos) :
    r.read.outcome = .error (some ((Cause.noInvocation r.opener).locate r.text 0)) ∧
      r.read.reader.pos = r.pos := by
  have hseek := (seek_eq_none_iff (by simp [marker]) r.pos _).mpr h
  rw [(sweeps_read r).1, (sweeps_read r).2, sweep_none hseek]
  exact ⟨rfl, rfl⟩

/-- With a marker ahead a reading passes it, and ends within the text. -/
theorem read_of_infix (h : marker r.opener <:+: r.text.drop r.pos) :
    ∃ place, r.pos ≤ place ∧ marker r.opener <+: r.text.drop place ∧
      place + (marker r.opener).length ≤ r.read.reader.pos ∧
      r.read.reader.pos ≤ r.text.length := by
  cases hseek : seek (marker r.opener) r.pos (r.text.drop r.pos) with
  | none => exact absurd h ((seek_eq_none_iff (by simp [marker]) ..).mp hseek)
  | some place =>
    obtain ⟨start, body⟩ := place
    obtain ⟨hpast, hend⟩ := cursor_of_seek hseek
    obtain ⟨gap, htext, rfl, -⟩ := (seek_eq_some_iff ..).mp hseek
    have hlength := congrArg List.length htext
    simp only [List.length_drop, List.length_append] at hlength
    have hplace : r.text.drop (r.pos + gap.length) = marker r.opener ++ body := by
      rw [← List.drop_drop, htext, List.append_assoc, List.drop_left]
    -- The marker is not empty, so the cursor stood within the text.
    have hmarker : 0 < (marker r.opener).length := by simp [marker]
    rw [(sweeps_read r).2]
    exact ⟨r.pos + gap.length, Nat.le_add_right .., ⟨body, hplace.symm⟩, hpast, by omega⟩

/-- A reading moves the cursor on, but not out of the text. -/
theorem le_pos_read (h : r.pos ≤ r.text.length) :
    r.pos ≤ r.read.reader.pos ∧ r.read.reader.pos ≤ r.text.length := by
  by_cases hmarker : marker r.opener <:+: r.text.drop r.pos
  · obtain ⟨place, hplace, -, hpast, hend⟩ := r.read_of_infix hmarker
    exact ⟨by omega, hend⟩
  · rw [(r.read_of_not_infix hmarker).2]
    exact ⟨Nat.le_refl _, h⟩

/-- A reading leaves one marker less ahead, if there is one. -/
theorem occurrences_read : occurrences (marker r.opener) (r.text.drop r.read.reader.pos) ≤
    occurrences (marker r.opener) (r.text.drop r.pos) - 1 := by
  have hne : marker r.opener ≠ [] := by simp [marker]
  by_cases hmarker : marker r.opener <:+: r.text.drop r.pos
  · obtain ⟨place, hplace, hstands, hpast, -⟩ := r.read_of_infix hmarker
    have hlt : place < r.read.reader.pos := by
      have := List.length_pos_iff.mpr hne
      omega
    have hfewer := occurrences_drop_lt hne hstands hlt
    have hle := occurrences_drop_le (marker r.opener) r.text hplace
    omega
  · have hzero := (occurrences_eq_zero_iff ..).mpr hmarker
    rw [(r.read_of_not_infix hmarker).2, hzero]

end Reader

/-! ## After any number of readings -/

/-- After any number of readings only what is left of them has changed: the cursor stands within the
text, and each reading has left one marker less ahead. -/
theorem exists_after (text : Text) (keyCount : Option Int) (opener : Text) (times : Nat) :
    ∃ cursor, (Reader.ofText text keyCount opener).after times = ⟨cursor, text, keyCount, opener⟩ ∧
      cursor.pos ≤ text.length ∧
      occurrences (marker opener) (text.drop cursor.pos) ≤
        occurrences (marker opener) text - times := by
  induction times with
  | zero => exact ⟨⟨0, 0, []⟩, rfl, Nat.zero_le _, Nat.le_refl _⟩
  | succ times ih =>
    obtain ⟨cursor, hafter, hcursor, hahead⟩ := ih
    let r : Reader := ⟨cursor, text, keyCount, opener⟩
    have hfewer : occurrences (marker opener) (text.drop r.read.reader.pos) ≤
        occurrences (marker opener) (text.drop cursor.pos) - 1 := r.occurrences_read
    rw [Reader.after, hafter]
    exact ⟨r.read.reader.toCursor, rfl, (r.le_pos_read hcursor).2, by omega⟩

/-- What a pass from the offset `pos` of a text is like: what a fresh reader of the rest of the text
gives, further on. -/
structure Pass.Resumes (text : Text) (keyCount : Option Int) (opener : Text) (pos : Nat)
    (pass : Pass) : Prop where
  /-- The outline stands further on, and so does an error. -/
  outcome : pass.outcome = ((told (text.drop pos) keyCount opener).map
    (Outline.advance pos)).mapError (Option.map (SyntaxError.within text pos))
  /-- The fresh reader gives the outline or the error of the rest of the text. -/
  fresh : (Reader.ofText (text.drop pos) keyCount opener).read.outcome =
    told (text.drop pos) keyCount opener
  /-- The cursor is left further on than by the fresh reader. -/
  cursor : pass.reader.pos =
    pos + (Reader.ofText (text.drop pos) keyCount opener).read.reader.pos
  /-- The cursor never goes back. -/
  le_cursor : pos ≤ pass.reader.pos
  /-- The cursor does not leave the text. -/
  cursor_le : pass.reader.pos ≤ text.length
  /-- Unless nothing is found, the cursor goes past a marker. -/
  past_marker : pass.outcome ≠ .error (some ((Cause.noInvocation opener).locate text 0)) →
    ∃ place, pos ≤ place ∧ marker opener <+: text.drop place ∧
      place + (marker opener).length ≤ pass.reader.pos

/-- A reader resumes at its cursor, whatever its count and its stack are. -/
theorem Reader.resumes_read (r : Reader) (h : r.pos ≤ r.text.length) :
    r.read.Resumes r.text r.keyCount r.opener r.pos where
  outcome := by rw [r.outcome_read, outcome_read_ofText]
  fresh := outcome_read_ofText ..
  cursor := r.pos_read_drop
  le_cursor := (r.le_pos_read h).1
  cursor_le := (r.le_pos_read h).2
  past_marker := fun hfound => by
    have hmarker : marker r.opener <:+: r.text.drop r.pos := by
      by_contra hnone
      exact hfound (r.read_of_not_infix hnone).1
    obtain ⟨place, hplace, hstands, hpast, -⟩ := r.read_of_infix hmarker
    exact ⟨place, hplace, hstands, hpast⟩

/-- Whatever the readings before gave and have left of open parentheses, a reading gives what a
fresh reader would give from the cursor on, and any other count or stack would do as well. After as
many readings as there are markers in the text, nothing is found any more. -/
theorem read_resumes (text : Text) (keyCount : Option Int) (opener : Text) (times : Nat) :
    let fresh := Reader.ofText text keyCount opener
    let r := fresh.after times
    (fresh.readTimes (times + 1))[times]? = some r.read ∧
      r.read.Resumes text keyCount opener r.pos ∧
      (∀ depth opened,
        ({ r with depth, opened } : Reader).read.Resumes text keyCount opener r.pos) ∧
      (occurrences (marker opener) text ≤ times →
        r.read.outcome = .error (some ((Cause.noInvocation opener).locate text 0))) := by
  intro fresh r
  have hread : (fresh.readTimes (times + 1))[times]? = some r.read := by
    simp [Reader.readTimes_eq_map, r]
  -- The reader stands at a cursor, with a depth and a stack that earlier readings have left.
  obtain ⟨cursor, hafter, hcursor, hahead⟩ :
      ∃ cursor, r = ⟨cursor, text, keyCount, opener⟩ ∧ _ := exists_after text keyCount opener times
  clear_value r
  subst hafter
  refine ⟨hread, Reader.resumes_read ⟨cursor, text, keyCount, opener⟩ hcursor, fun depth opened =>
    Reader.resumes_read ⟨⟨cursor.pos, depth, opened⟩, text, keyCount, opener⟩ hcursor, ?_⟩
  intro htimes
  -- No marker is left behind the cursor, since each reading has passed one.
  have hnone : ¬ marker opener <:+: text.drop cursor.pos :=
    (occurrences_eq_zero_iff ..).mp (by omega)
  exact (Reader.read_of_not_infix ⟨cursor, text, keyCount, opener⟩ hnone).1

end

open Usual

/-- The first reading stops within two calls, at a fault, and leaves both of them open. The next one
goes on there and finds the layer behind it. -/
theorem read_resumes_within_calls :
    let text := "K(f(g(A B), C)) K(D)".toList
    let r := (Reader.ofText text none "K".toList).after 1
    r.toCursor = ⟨10, 3, [5, 3, 1]⟩ ∧ r.read.Resumes text none "K".toList 10 ∧
      r.read.reader.toCursor = ⟨20, 0, [17]⟩ := by
  intro text r
  have hcursor : r.toCursor = ⟨10, 3, [5, 3, 1]⟩ := by decide +kernel
  have hpos : r.pos = 10 := congrArg Descent.Cursor.pos hcursor
  obtain ⟨-, hresumes, -⟩ := read_resumes text none "K".toList 1
  exact ⟨hcursor, hpos ▸ hresumes, by decide +kernel⟩

end Keymap
