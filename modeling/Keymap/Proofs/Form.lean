import Keymap.Outline
import Keymap.Proofs.Grammar

/-!
# Forms

What keys say apart from where they stand and how they are laid out: a word says its characters, and
a call its name and its parameters. Blanks and comments inside a call belong to its content but not
to its form.

## Key results

- `Node.depthAll_congr` — keys of the same forms are equally deep
-/

namespace Keymap

/-- What a key says, wherever it stands and however it is written: a word, or a name with
parameters. -/
inductive Form where
  | word (chars : Text)
  | call (name : Text) (params : List Form)

mutual

/-- The form of a key. -/
def Node.form : Key → Form
  | .word content _ _ => .word content
  | .call name params _ _ _ => .call name (Node.formAll params)
  | .strange value => nomatch value

/-- The forms of several keys. -/
def Node.formAll : List Key → List Form
  | [] => []
  | key :: rest => key.form :: Node.formAll rest

end

/-- The forms of all keys, layer by layer. -/
def Outline.forms (outline : Outline) : List (List Form) :=
  outline.layers.map Node.formAll

mutual

/-- The characters of all words and names of a form. -/
def Form.chars : Form → Text
  | .word chars => chars
  | .call name params => name ++ Form.charsAll params

/-- The characters of all words and names of several forms. -/
def Form.charsAll : List Form → Text
  | [] => []
  | form :: rest => form.chars ++ Form.charsAll rest

end

mutual

/-- Keys of one form are equally deep. -/
theorem Node.depth_congr {a b : Key} (h : a.form = b.form) : a.depth = b.depth := by
  match a, b with
  | .word .., .word .. => rfl
  | .call _ params _ _ _, .call _ params' _ _ _ =>
    rw [Node.form, Node.form] at h
    rw [Node.depth, Node.depth, Node.depthAll_congr (Form.call.inj h).2]
  | .word .., .call .. | .call .., .word .. => simp [Node.form] at h

/-- Keys of the same forms are equally deep. -/
theorem Node.depthAll_congr {as bs : List Key} (h : Node.formAll as = Node.formAll bs) :
    Node.depthAll as = Node.depthAll bs := by
  match as, bs with
  | [], [] => rfl
  | a :: as, b :: bs =>
    rw [Node.formAll, Node.formAll] at h
    obtain ⟨hkey, hrest⟩ := List.cons.inj h
    rw [Node.depthAll, Node.depthAll, Node.depth_congr hkey, Node.depthAll_congr hrest]
  | [], _ :: _ | _ :: _, [] => simp [Node.formAll] at h

end

end Keymap
