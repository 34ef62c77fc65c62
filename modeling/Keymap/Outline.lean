import Keymap.Layer.Invocation

/-!
# Outlines

The outline of a source text is what all its layers say: one list of keys for each, and the offset
after the last layer. Layers must agree on how many keys they have.

## Key results

- `layers_ne_nil_of_parse` — a text that parses has a layer
-/

namespace Keymap

/-- The layers of a text and the offset after the last one. -/
structure Outline where
  layers : List (List Key)
  stop : Nat
  deriving DecidableEq

namespace Outline

/-- How many layers there are. -/
def layerCount (outline : Outline) : Nat :=
  outline.layers.length

/-- How many keys each layer has. -/
def keyCount (outline : Outline) : Nat :=
  (outline.layers.head?.map List.length).getD 0

/-- The key at a position of a layer, if both exist. -/
def key? (outline : Outline) (layer key : Int) : Option Key :=
  if 0 ≤ layer ∧ 0 ≤ key then outline.layers[layer.toNat]?.bind (·[key.toNat]?) else none

end Outline

/-! ## Agreement on the number of keys -/

/-- The first layer, counted from `number`, that has not as many keys as expected. -/
def uneven? (expected number : Nat) : List Invocation → Option Fault
  | [] => none
  | layer :: rest =>
    if layer.keys.length = expected then uneven? expected (number + 1) rest
    else some ⟨.unevenLayers expected layer.keys.length number, layer.start⟩

namespace Sweep

/-- The offset after the last invocation, or `pos` if there is none. -/
def stop (sweep : Sweep) (pos : Nat) : Nat :=
  (sweep.found.getLast?.map Invocation.stop).getD pos

/-- Where a sweep from `pos` has come to. -/
def cursor (sweep : Sweep) (pos : Nat) : Nat :=
  match sweep.failure with
  | some failure => failure.cursor
  | none => sweep.stop pos

/-- Without a layer the cursor stays where it is. -/
theorem cursor_nil (pos : Nat) : cursor ⟨[], none⟩ pos = pos := rfl

/-- The cursor is left where the sweep behind a layer leaves it. -/
theorem cursor_cons (start : Nat) (keys : List Key) (stop : Nat) (later : Sweep) (pos : Nat) :
    cursor ⟨⟨start, keys, stop⟩ :: later.found, later.failure⟩ pos = later.cursor stop := by
  obtain ⟨found, failure⟩ := later
  cases failure with
  | some failure => rfl
  | none =>
    simp only [cursor, Sweep.stop, List.getLast?_cons, Option.map_some, Option.getD_some]
    cases found.getLast? <;> rfl

/-- The outline of a text, which has as many keys in each layer as are asked for. -/
def outline (sweep : Sweep) (opener : Text) (keyCount : Option Int) : Except Fault Outline :=
  match sweep.failure, sweep.found with
  | some failure, _ => .error failure.fault
  | none, [] => .error ⟨.noInvocation opener, 0⟩
  | none, first :: later =>
    -- Layers are compared with the first one before their number is compared with the asked one.
    let size := first.keys.length
    match uneven? size 0 (first :: later) with
    | some fault => .error fault
    | none =>
      match keyCount with
      | some expected =>
        if expected = size then .ok ⟨(first :: later).map (·.keys), sweep.stop 0⟩
        else .error ⟨.wrongKeyCount expected size, first.start⟩
      | none => .ok ⟨(first :: later).map (·.keys), sweep.stop 0⟩

end Sweep

/-! ## Reading a text -/

/-- The opener that is looked for unless another one is asked for. -/
def defaultOpener : Text := "KEYMAP".toList

/-- What reading a text gives: the invocations that were read, and the outline or the error. -/
structure Reading where
  found : List Invocation
  outcome : Except SyntaxError Outline

variable [Machine]

/-- Read a text from its beginning. -/
def readText (text : Text) (keyCount : Option Int) (opener : Text) : Reading :=
  let sweep := sweep opener 0 text
  { found := sweep.found
    outcome := (sweep.outline opener keyCount).mapError fun fault =>
      fault.cause.locate text fault.offset }

/-- The outline of a text. -/
def parse (text : Text) (keyCount : Option Int) (opener : Text) : Except SyntaxError Outline :=
  (readText text keyCount opener).outcome

/-! ## A text that parses -/

omit [Machine] in
/-- A sweep that has an outline found an invocation, and the layers are those that it found. -/
theorem Sweep.layers_of_outline {sweep : Sweep} {opener : Text} {keyCount : Option Int}
    {outline : Outline} (h : sweep.outline opener keyCount = .ok outline) :
    sweep.found ≠ [] ∧ outline.layers = sweep.found.map (·.keys) := by
  rw [Sweep.outline] at h
  split at h
  · exact nomatch h
  · exact nomatch h
  · rename_i first later _ hfound
    -- Both checks have passed.
    simp only at h
    split at h
    · exact nomatch h
    · split at h
      · split at h
        · obtain rfl := Except.ok.inj h
          simp [hfound]
        · exact nomatch h
      · obtain rfl := Except.ok.inj h
        simp [hfound]

/-- A text that parses has a layer. -/
theorem layers_ne_nil_of_parse {text : Text} {keyCount : Option Int} {opener : Text}
    {outline : Outline} (h : parse text keyCount opener = .ok outline) : outline.layers ≠ [] := by
  simp only [parse, readText] at h
  generalize hsweep : (sweep _ _ _).outline _ _ = outcome at h
  cases outcome with
  | error fault => exact nomatch h
  | ok found =>
    obtain rfl := Except.ok.inj h
    obtain ⟨hne, hlayers⟩ := Sweep.layers_of_outline hsweep
    simpa [hlayers] using hne

end Keymap
