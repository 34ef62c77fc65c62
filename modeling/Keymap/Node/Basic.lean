import Keymap.Value

/-!
# Syntax trees

A key of a layer is a word, such as `KC_A`, or a call, such as `LT(1, KC_A)`. Every tree records
the span of source text that it was read from. The type is generic over the numbers used for
offsets and over what may stand in a tree without being part of the syntax: trees that are read
from a text have natural offsets and hold nothing else.

## Key results

- `Node.decEq` — equality of trees is decidable
- `Node.length_content_of_spans` — the content of a spanning key is as long as its span
-/

namespace Keymap

/-- A syntax tree over offsets of type `ι` and strange values of type `α`. -/
inductive Node (ι α : Type) where
  /-- A word and its span. -/
  | word (content : Text) (offset stop : ι)
  /-- A call: its name, its parameters, and the span and text from the name through the closing
  parenthesis. -/
  | call (name : Text) (params : List (Node ι α)) (offset stop : ι) (content : Text)
  /-- Something that is no syntax. -/
  | strange (value : α)

/-- A tree that was read from a text. -/
abbrev Key := Node Nat Empty

/-- A tree that was put together by hand. -/
abbrev Sketch := Node Int Value

/-! ## Equality -/

namespace Node

variable {ι α : Type} [DecidableEq ι] [DecidableEq α]

mutual

/-- Decide whether two trees are equal. -/
def decEq : (a b : Node ι α) → Decidable (a = b)
  | .word c o s, .word c' o' s' =>
    if h : c = c' ∧ o = o' ∧ s = s' then .isTrue (by simp [h]) else .isFalse (by simpa using h)
  | .call n ps o s c, .call n' ps' o' s' c' =>
    match decEqList ps ps' with
    | .isTrue hp =>
      if h : n = n' ∧ o = o' ∧ s = s' ∧ c = c' then .isTrue (by simp [h, hp])
      else .isFalse (by simpa [hp] using h)
    | .isFalse hp => .isFalse (by simp [hp])
  | .strange v, .strange v' =>
    if h : v = v' then .isTrue (by rw [h]) else .isFalse (by simpa using h)
  | .word .., .call .. | .word .., .strange _ | .call .., .word .. | .call .., .strange _
  | .strange _, .word .. | .strange _, .call .. => .isFalse nofun

/-- Decide whether two lists of trees are equal. -/
def decEqList : (as bs : List (Node ι α)) → Decidable (as = bs)
  | [], [] => .isTrue rfl
  | [], _ :: _ | _ :: _, [] => .isFalse nofun
  | a :: as, b :: bs =>
    match decEq a b with
    | .isTrue h =>
      match decEqList as bs with
      | .isTrue hs => .isTrue (by rw [h, hs])
      | .isFalse hs => .isFalse (by simp [hs])
    | .isFalse h => .isFalse (by simp [h])

end

instance : DecidableEq (Node ι α) := decEq

end Node

/-! ## Keys -/

namespace Node

/-- Where a key begins. -/
def offset : Key → Nat
  | .word _ offset _ => offset
  | .call _ _ offset _ _ => offset
  | .strange value => nomatch value

/-- Where a key ends: the offset after its last character. -/
def stop : Key → Nat
  | .word _ _ stop => stop
  | .call _ _ _ stop _ => stop
  | .strange value => nomatch value

/-- The source text of a key. -/
def content : Key → Text
  | .word content _ _ => content
  | .call _ _ _ _ content => content
  | .strange value => nomatch value

/-- The key's content is the text of its span. -/
def Spans (text : Text) (key : Key) : Prop :=
  key.offset ≤ key.stop ∧ key.stop ≤ text.length ∧ key.content = text.slice key.offset key.stop

/-- The content of a key that spans a part of a text is as long as its span. -/
theorem length_content_of_spans {text : Text} {key : Key} (h : key.Spans text) :
    key.content.length = key.stop - key.offset := by
  obtain ⟨hle, hstop, heq⟩ := h
  rw [heq, Text.length_slice]
  omega

end Node

end Keymap
