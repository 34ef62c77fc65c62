import Keymap.Layer.Scan

/-!
# Invocations

A source text invokes the layer macro once for each layer: the name of the macro, here called the
opener, stands directly before a parenthesis, and the keys of the layer follow up to the closing
one. The text in between is searched for the next opener and not read otherwise.

## Key results

- `seek_eq_none_iff` — a search fails exactly when the marker occurs nowhere
- `sweep_none`, `sweep_error`, `sweep_ok` — a sweep goes from one invocation to the next
-/

namespace Keymap

/-- One invocation of the layer macro: where the opener stands, the keys of the layer, and the
offset after its closing parenthesis. -/
structure Invocation where
  start : Nat
  keys : List Key
  stop : Nat
  deriving DecidableEq

/-- The first place of a text at which a marker stands, and the text after the marker. The text
begins at the offset `pos`. -/
def seek (marker : Text) (pos : Nat) : Text → Option (Nat × Text)
  | [] => none
  | c :: rest =>
    if marker.isPrefixOf (c :: rest) then some (pos, (c :: rest).drop marker.length)
    else seek marker (pos + 1) rest

/-- A marker that is found has been taken off the text. -/
theorem length_lt_of_seek {marker text : Text} {pos : Nat} {found : Nat × Text}
    (hmarker : marker ≠ []) (h : seek marker pos text = some found) :
    found.2.length < text.length := by
  induction text generalizing pos with
  | nil => simp [seek] at h
  | cons c rest ih =>
    rw [seek] at h
    split at h
    · obtain rfl := Option.some.inj h
      have := List.length_pos_iff.mpr hmarker
      simp only [List.length_drop, List.length_cons]
      omega
    · have := ih h
      simp only [List.length_cons]
      omega

/-- What reading all invocations of a text gives: those that were read, and what stopped it. -/
structure Sweep where
  found : List Invocation
  failure : Option Failure
  deriving DecidableEq

/-- The characters that begin a layer. -/
def marker (opener : Text) : Text :=
  opener ++ ['(']

variable [Machine]

/-- Read the invocations of a text that begins at the offset `pos`, up to the first fault. -/
def sweep (opener : Text) (pos : Nat) (text : Text) : Sweep :=
  match _hseek : seek (marker opener) pos text with
  | none => ⟨[], none⟩
  | some (start, body) =>
    match _hscan : (State.initial (start + opener.length)).scan body with
    | .error failure => ⟨[], some failure⟩
    | .ok closed =>
      let later := sweep opener closed.stop closed.rest
      ⟨⟨start, closed.keys, closed.stop⟩ :: later.found, later.failure⟩
termination_by text.length
decreasing_by
  have h₁ := length_lt_of_seek (by simp [marker]) _hseek
  have h₂ := State.scan_rest_length_lt _hscan
  exact Nat.lt_trans h₂ h₁

/-! ## Searching -/

omit [Machine] in
/-- A search fails exactly when the marker occurs nowhere. -/
theorem seek_eq_none_iff {marker : Text} (hmarker : marker ≠ []) (pos : Nat) (text : Text) :
    seek marker pos text = none ↔ ¬ marker <:+: text := by
  induction text generalizing pos with
  | nil => simp [seek, hmarker]
  | cons c rest ih =>
    rw [seek, List.infix_cons_iff, not_or, ← ih (pos + 1), ← List.isPrefixOf_iff_prefix]
    split <;> simp_all

/-! ## Sweeping -/

/-- Without another opener a sweep ends. -/
theorem sweep_none {opener text : Text} {pos : Nat} (h : seek (marker opener) pos text = none) :
    sweep opener pos text = ⟨[], none⟩ := by
  rw [sweep]
  split <;> simp_all

/-- At a layer that cannot be read a sweep ends with its fault. -/
theorem sweep_error {opener text body : Text} {pos start : Nat} {failure : Failure}
    (h : seek (marker opener) pos text = some (start, body))
    (_hscan : (State.initial (start + opener.length)).scan body = .error failure) :
    sweep opener pos text = ⟨[], some failure⟩ := by
  rw [sweep]
  split <;> simp_all
  split <;> simp_all

/-- After a layer that was read a sweep goes on. -/
theorem sweep_ok {opener text body : Text} {pos start : Nat} {closed : State.Closed}
    (h : seek (marker opener) pos text = some (start, body))
    (_hscan : (State.initial (start + opener.length)).scan body = .ok closed) :
    sweep opener pos text =
      ⟨⟨start, closed.keys, closed.stop⟩ :: (sweep opener closed.stop closed.rest).found,
        (sweep opener closed.stop closed.rest).failure⟩ := by
  rw [sweep]
  split <;> simp_all
  split <;> simp_all

end Keymap
