import Keymap.Outline
import Keymap.Template.Fault

/-!
# Layer templates

How a new layer is written: its label with the number of the layer filled in by some renderer, the
opener, and one placeholder for each key.
-/

namespace Keymap

/-- A key that says nothing on its layer. -/
def defaultPlaceholder : Text := "KC_TRANSPARENT".toList

/-- Why a new layer cannot be written: it has too many keys, or its label has a fault. -/
inductive TemplateFault where
  | tooManyKeys (fault : CapacityFault)
  | label (fault : PatternFault)
  deriving DecidableEq, Repr

/-- The wording of a fault. -/
def TemplateFault.message : TemplateFault → Text
  | .tooManyKeys fault => fault.message
  | .label fault => fault.message

/-- The text of a new layer, in parts. -/
structure Template where
  /-- The name of the layer macro. -/
  opener : Text
  /-- What stands for each key. -/
  placeholder : Text
  /-- The pattern of the label before the opener. -/
  labelPattern : Text
  /-- What stands between the last layer and the new one. -/
  separator : Text
  /-- What stands between two keys. -/
  joiner : Text
  deriving DecidableEq, Repr

namespace Template

/-- The template that is used unless another one is asked for. -/
def standard : Template where
  opener := defaultOpener
  placeholder := defaultPlaceholder
  labelPattern := "[\x7bindex\x7d] = ".toList
  separator := ",\n ".toList
  joiner := ",".toList

/-- The keys of a new layer. -/
def keys (t : Template) (keyCount : Nat) : Text :=
  t.joiner.intercalate (List.replicate keyCount t.placeholder)

/-- A new layer with a number and as many keys as there are in another layer, without the separator
before it. -/
def write (t : Template) (renderer : Renderer) (number : Int) (keyCount : Nat) :
    Except PatternFault Text := do
  let label ← renderer number t.labelPattern
  return label ++ marker t.opener ++ t.keys keyCount ++ [')']

/-- A new layer with a number and any count of keys, without the separator before it. There are no
keys unless the count is positive. -/
def render [Machine] (t : Template) (renderer : Renderer) (number keyCount : Int) :
    Except TemplateFault Text := do
  let keyCount ← (checkCount keyCount).mapError .tooManyKeys
  (t.write renderer number keyCount).mapError .label

/-- A layer is written as soon as its label is. -/
theorem write_of_label {t : Template} {renderer : Renderer} {number : Int} {label : Text}
    (keyCount : Nat) (hlabel : renderer number t.labelPattern = .ok label) :
    t.write renderer number keyCount =
      .ok (label ++ marker t.opener ++ t.keys keyCount ++ [')']) := by
  rw [write, hlabel]
  rfl

end Template

end Keymap
