import Keymap.Text.Basic

/-!
# Plain text

A text may hold control sequences that tell a terminal how to show what follows, for instance in
red. A sequence is an escape and an opening bracket, then parameters, then a letter. What is shown
without a terminal holds no sequences; an escape that begins none is shown as it is.

## Key results

- `Text.plain_sequence` — a sequence is left out
- `Text.plain_eq_self` — a text without escapes is plain
-/

namespace Keymap

/-- The character that begins a control sequence. -/
def escape : Char := '\x1b'

/-- Whether a character may stand between the bracket and the letter of a control sequence. -/
def isParameter (c : Char) : Bool :=
  c == ';' || c == '?' || c.isDigit

/-- The text after a control sequence, of which the escape and the bracket have been read. -/
def afterSequence? : Text → Option Text
  | [] => none
  | c :: rest =>
    if isParameter c then afterSequence? rest
    else if c.isAlpha then some rest
    else none

/-- A control sequence leaves a proper part of the text after it. -/
theorem suffix_of_afterSequence? {text rest : Text} (h : afterSequence? text = some rest) :
    rest <:+ text ∧ rest.length < text.length := by
  induction text with
  | nil => exact nomatch h
  | cons c text ih =>
    rw [afterSequence?] at h
    split at h
    · obtain ⟨hsuffix, hlt⟩ := ih h
      exact ⟨hsuffix.trans (List.suffix_cons c text), Nat.lt_succ_of_lt hlt⟩
    · split at h
      · obtain rfl := Option.some.inj h
        exact ⟨List.suffix_cons c text, Nat.lt_succ_self _⟩
      · exact nomatch h

namespace Text

/-- The text without its control sequences. -/
def plain : Text → Text
  | [] => []
  | [c] => [c]
  | c :: d :: rest =>
    if c = escape ∧ d = '[' then
      match _hrest : afterSequence? rest with
      | some later => plain later
      | none => c :: plain (d :: rest)
    else c :: plain (d :: rest)
termination_by text => text.length
decreasing_by
  · have := (suffix_of_afterSequence? _hrest).2
    simp only [List.length_cons]
    omega
  all_goals simp

/-! ## What is left out -/

/-- A control sequence is left out. -/
theorem plain_sequence {text later : Text} (h : afterSequence? text = some later) :
    plain (escape :: '[' :: text) = later.plain := by
  rw [plain, if_pos ⟨rfl, rfl⟩]
  split
  · rename_i other hother
    rw [Option.some.inj (hother.symm.trans h)]
  · rename_i hnone
    exact nomatch hnone.symm.trans h

/-- A text without escapes is plain. -/
theorem plain_eq_self {text : Text} (h : escape ∉ text) : text.plain = text := by
  fun_induction plain text with
  | case1 => rfl
  | case2 => rfl
  | case3 c d rest hbegins => exact absurd (hbegins.1 ▸ List.mem_cons_self) h
  | case4 c d rest hbegins => exact absurd (hbegins.1 ▸ List.mem_cons_self) h
  | case5 c d rest _ ih => rw [ih fun hmem => h (List.mem_cons_of_mem c hmem)]

end Text

end Keymap
