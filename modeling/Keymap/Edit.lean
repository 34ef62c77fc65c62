import Keymap.Event
import Keymap.Template

/-!
# Editing

Two edits of a source text. Setting a key replaces the text of one key and insists that the result
parses. Adding a layer writes a new layer after the last one; a text that does not parse is left
alone, and the result is parsed again only if that is asked for. All characters outside the edited
span stay as they are.

## Key results

- `setKey_missing` — setting a key that is not there leaves the text alone
- `setKey_eq_ok_iff` — setting a key gives the splice of its value, if that parses
- `addLayer_of_error` — a text that does not parse is left alone
-/

namespace Keymap

/-! ## Setting a key -/

/-- The text with the characters of a key replaced by a value. -/
def Node.replaceIn (node : Key) (text value : Text) : Text :=
  text.splice node.offset (node.offset + node.content.length) value

variable [Machine]

/-- Replace a key of a layer by a value. The text must parse before, and afterwards as well if the
key exists. -/
def setKey (text : Text) (layer key : Int) (value : Text) (keyCount : Option Int)
    (opener : Text) : Except SyntaxError Text :=
  match parse text keyCount opener with
  | .error e => .error e
  | .ok outline =>
    match outline.key? layer key with
    | none => .ok text
    | some node =>
      match parse (node.replaceIn text value) keyCount opener with
      | .error e => .error e
      | .ok _ => .ok (node.replaceIn text value)

/-- What happens while a key is set. -/
def setKeyEvents (text : Text) (layer key : Int) (value : Text) (keyCount : Option Int)
    (opener : Text) : List Event :=
  let reading := readText text keyCount opener
  reading.events ++
    match reading.outcome with
    | .error _ => []
    | .ok outline =>
      match outline.key? layer key with
      | none => [.keyMissing layer key]
      | some node =>
        let reading := readText (node.replaceIn text value) keyCount opener
        reading.events ++
          match reading.outcome with
          | .error _ => []
          | .ok _ => [.keySet layer key node.content value]

/-! ## Adding a layer -/

/-- What can go wrong when a layer is added: the text with the layer does not parse, or the layer
cannot be written. -/
inductive AdditionFault where
  | source (error : SyntaxError)
  | template (fault : TemplateFault)
  deriving DecidableEq

/-- The text with an addition after its last layer. -/
def Outline.extend (outline : Outline) (text addition : Text) : Text :=
  text.splice outline.stop outline.stop addition

/-- What is added to a text with the given outline: a separator, and a layer with the next number
and as many keys as the others have. -/
def Template.addition (template : Template) (renderer : Renderer) (outline : Outline) :
    Except TemplateFault Text :=
  (template.separator ++ ·) <$>
    (template.write renderer outline.layerCount outline.keyCount).mapError .label

/-- Add a layer after the last one, with its label written by a renderer. -/
def addLayer (renderer : Renderer) (text : Text) (template : Template) (validate : Bool) :
    Except AdditionFault Text :=
  match parse text none template.opener with
  | .error _ => .ok text
  | .ok outline =>
    match template.addition renderer outline with
    | .error fault => .error (.template fault)
    | .ok addition =>
      let edited := outline.extend text addition
      if validate then
        match parse edited (some outline.keyCount) template.opener with
        | .error e => .error (.source e)
        | .ok _ => .ok edited
      else .ok edited

/-- What happens while a layer is added. -/
def addLayerEvents (renderer : Renderer) (text : Text) (template : Template) (validate : Bool) :
    List Event :=
  let reading := readText text none template.opener
  reading.events ++
    match reading.outcome with
    | .error e => [.layerNotAdded e]
    | .ok outline =>
      match template.addition renderer outline with
      | .error _ => []
      | .ok addition =>
        let edited := outline.extend text addition
        let added := Event.layerAdded outline.layerCount outline.keyCount outline.stop
        if validate then
          let reading := readText edited (some outline.keyCount) template.opener
          reading.events ++
            match reading.outcome with
            | .error _ => []
            | .ok _ => [added]
        else [added]

/-! ## Outcomes -/

/-- Setting a key that is not there leaves the text alone. -/
theorem setKey_missing {text : Text} {layer key : Int} {keyCount : Option Int} {opener : Text}
    {outline : Outline} (value : Text) (hparse : parse text keyCount opener = .ok outline)
    (hkey : outline.key? layer key = none) :
    setKey text layer key value keyCount opener = .ok text := by
  simp [setKey, hparse, hkey]

/-- Setting a key gives the splice of its value, if that parses, and nothing else. -/
theorem setKey_eq_ok_iff {text : Text} {layer key : Int} {keyCount : Option Int} {opener : Text}
    {outline : Outline} {node : Key} (value edited : Text)
    (hparse : parse text keyCount opener = .ok outline)
    (hkey : outline.key? layer key = some node) :
    setKey text layer key value keyCount opener = .ok edited ↔
      edited = node.replaceIn text value ∧
        ∃ outline', parse (node.replaceIn text value) keyCount opener = .ok outline' := by
  rw [setKey, hparse]
  simp only [hkey]
  cases parse (node.replaceIn text value) keyCount opener <;> simp [eq_comm]

/-- A text that does not parse is left alone, whether or not the result is to be parsed again. -/
theorem addLayer_of_error {text : Text} {template : Template} {e : SyntaxError}
    (renderer : Renderer) (validate : Bool) (h : parse text none template.opener = .error e) :
    addLayer renderer text template validate = .ok text := by
  simp [addLayer, h]

end Keymap
