/-!
# Text

Source text is a list of code points, so that offsets, columns and lengths count characters.
This module holds the cuts that the rest of the library makes in a text: `slice` reads a span,
`splice` replaces one, and `width` bounds an arbitrary offset by the text.

## Key results

- `Text.splice_slice` — writing a span's own characters back changes nothing
-/

namespace Keymap

/-- A text: its characters in reading order. -/
abbrev Text := List Char

namespace Text

/-- The characters at the offsets from `start` up to, and without, `stop`. -/
def slice (text : Text) (start stop : Nat) : Text :=
  (text.drop start).take (stop - start)

/-- The text with the characters from `start` up to `stop` replaced by `value`. -/
def splice (text : Text) (start stop : Nat) (value : Text) : Text :=
  text.take start ++ value ++ text.drop stop

/-- The place in the text that is nearest to an arbitrary offset. -/
def nearest (text : Text) (offset : Int) : Nat :=
  min offset.toNat text.length

/-! ## Spans and splices -/

/-- A slice is as long as its span, as far as the text goes. -/
theorem length_slice (text : Text) (start stop : Nat) :
    (text.slice start stop).length = min (stop - start) (text.length - start) := by
  simp [slice]

/-- A slice and the rest of a text follow each other. -/
theorem slice_append_drop (text : Text) {start stop : Nat} (h : start ≤ stop) :
    text.slice start stop ++ text.drop stop = text.drop start := by
  have hd : text.drop stop = (text.drop start).drop (stop - start) := by
    rw [List.drop_drop]; congr 1; omega
  rw [hd, slice, List.take_append_drop]

/-- A slice consists of the slices up to a place and from there. -/
theorem slice_append_slice (text : Text) {start mid stop : Nat} (hstart : start ≤ mid)
    (hstop : mid ≤ stop) : text.slice start mid ++ text.slice mid stop = text.slice start stop := by
  have hdrop : text.drop mid = (text.drop start).drop (mid - start) := by
    rw [List.drop_drop, Nat.add_sub_cancel' hstart]
  have hlength : stop - start = mid - start + (stop - mid) := by omega
  rw [slice, slice, slice, hdrop, hlength, List.take_add]

/-- A slice begins with the character at its offset. -/
theorem slice_eq_cons {text : Text} {start stop : Nat} {c : Char} (hc : text[start]? = some c)
    (hlt : start < stop) : text.slice start stop = c :: text.slice (start + 1) stop := by
  obtain ⟨hlength, heq⟩ := List.getElem?_eq_some_iff.mp hc
  have htake : stop - start = stop - (start + 1) + 1 := by omega
  rw [slice, slice, List.drop_eq_getElem_cons hlength, heq, htake, List.take_succ_cons]

/-- Writing a span's own characters back changes nothing. -/
theorem splice_slice (text : Text) {start stop : Nat} (h : start ≤ stop) :
    text.splice start stop (text.slice start stop) = text := by
  rw [splice, List.append_assoc, slice_append_drop text h, List.take_append_drop]

/-- Replacing the middle of a text. -/
theorem splice_append (before middle after value : Text) :
    (before ++ middle ++ after).splice before.length (before.length + middle.length) value =
      before ++ value ++ after := by
  rw [splice, ← List.length_append, List.drop_left, List.append_assoc before, List.take_left]

/-- The middle of a text is the slice between its ends. -/
theorem slice_middle (before middle after : Text) :
    (before ++ middle ++ after).slice before.length (before.length + middle.length) = middle := by
  rw [slice, List.append_assoc, List.drop_left, Nat.add_sub_cancel_left, List.take_left]

/-- The nearest place lies in the text or at its end. -/
theorem nearest_le (text : Text) (offset : Int) : text.nearest offset ≤ text.length :=
  Nat.min_le_right _ _

end Text

end Keymap
