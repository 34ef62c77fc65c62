import Keymap.Proofs.AddLayer
import Keymap.Proofs.Overwrite

/-!
# Editing sessions

A session edits a text repeatedly: it sets keys and adds layers, in any order. What the text shows
is a sheet, with a row for each layer and a cell for each key. Edits of the text do to its sheet
what edits of a plain table do: a cell that exists is overwritten, and a row of equal cells is added
at the end. No edit fails, however long the session is.

## Key results

- `shows_iff` — a text shows a sheet if it is that of a source with these rows
- `Source.Fits.setKey`, `Source.Fits.addLayer` — an edit of the text is an edit of the sheet
- `session_refines` — a session of the text is a session of the sheet
-/

namespace Keymap

/-! ## Sheets -/

/-- A layer as it is shown: the text that leads from the layer before it to its opener, and the
contents of its keys. -/
structure Row where
  lead : Text
  cells : List Text

/-- The rows of all layers. -/
abbrev Sheet := List Row

namespace Sheet

/-- The contents of all keys. -/
def grid (sheet : Sheet) : List (List Text) :=
  sheet.map Row.cells

/-- How many cells each row has. -/
def width (sheet : Sheet) : Nat :=
  (sheet.head?.map (·.cells.length)).getD 0

/-- The sheet with a value in a cell. Nothing happens to a sheet without that cell. -/
def overwrite (sheet : Sheet) (layer key : Int) (value : Text) : Sheet :=
  if 0 ≤ layer ∧ 0 ≤ key then
    sheet.modify layer.toNat fun row => { row with cells := row.cells.set key.toNat value }
  else sheet

/-- The sheet with a row of equal cells at the end. -/
def addRow (sheet : Sheet) (lead value : Text) : Sheet :=
  sheet ++ [⟨lead, List.replicate sheet.width value⟩]

end Sheet

/-! ## What a text shows -/

/-- The rows of the invocations of a text, if the one before them ends at an offset. -/
def rows (text : Text) : Nat → List Invocation → Sheet
  | _, [] => []
  | pos, found :: later =>
    ⟨text.slice pos found.start, found.keys.map Node.content⟩ :: rows text found.stop later

section

variable [Machine]

/-- The sheet of a text: a row for each invocation that is read from it. -/
def sheetOf (opener text : Text) : Sheet :=
  rows text 0 (readText text none opener).found

/-- A text shows a sheet if it parses, and its keys and the texts between its layers are those of
the sheet. -/
structure Shows (opener text : Text) (sheet : Sheet) : Prop where
  parses : ∃ outline, parse text none opener = .ok outline ∧
    outline.layers.map (·.map Node.content) = sheet.grid
  rows : sheetOf opener text = sheet

/-- The rows of a source. -/
def Source.sheet (source : Source) : Sheet :=
  source.passages.map fun passage => ⟨passage.gap, passage.args.map (·.token.text)⟩

namespace Source

variable {opener : Text}

omit [Machine] in
/-- The rows of passages are read from the text that they stand in. -/
private theorem rows_invocations (before after : Text) (passages : List Passage) :
    rows (before ++ passagesText opener passages ++ after) before.length
        (invocations opener before.length passages) =
      passages.map fun passage => ⟨passage.gap, passage.args.map (·.token.text)⟩ := by
  induction passages generalizing before with
  | nil => rfl
  | cons passage rest ih =>
    -- The text from the passage on begins with its gap.
    have hslice : (before ++ passagesText opener (passage :: rest) ++ after).slice before.length
        (before.length + passage.gap.length) = passage.gap := by
      simp [Text.slice, Passage.text]
    have hrest := ih (before ++ passage.text opener)
    rw [List.length_append, List.append_assoc before, ← passagesText_cons] at hrest
    rw [invocations, rows, Passage.invocation, hslice, hrest, Passage.keys,
      ArgumentList.map_content_keys, List.map_cons]

/-- The sheet of a source that fits is read from its text. -/
theorem Fits.sheetOf {source : Source} {size : Nat} (h : source.Fits opener size) :
    Keymap.sheetOf opener (source.text opener) = source.sheet := by
  have hrows := @rows_invocations opener [] source.tail source.passages
  rwa [Keymap.sheetOf, h.found_readText]

omit [Machine] in
/-- The contents of the keys of a source are its grid. -/
theorem map_content_layers (source : Source) :
    (source.outline opener).layers.map (·.map Node.content) = source.sheet.grid := by
  rw [outline, sheet, Sheet.grid, List.map_map, List.map_map]
  exact map_content_invocations opener 0 source.passages

/-- The width of the sheet of a source that fits is the size of its layers. -/
theorem Fits.width_sheet {source : Source} {size : Nat} (h : source.Fits opener size) :
    source.sheet.width = size := by
  obtain ⟨passage, rest, hpassages⟩ := List.exists_cons_of_ne_nil h.passages_ne_nil
  have hsize := h.size passage (by rw [hpassages]; exact List.mem_cons_self)
  simp [sheet, Sheet.width, hpassages, hsize]

end Source

/-- A text shows a sheet exactly if it is that of a source with these rows. -/
theorem shows_iff (opener text : Text) (sheet : Sheet) :
    Shows opener text sheet ↔
      ∃ (source : Source) (size : Nat), source.Fits opener size ∧ text = source.text opener ∧
        sheet = source.sheet := by
  constructor
  · intro h
    obtain ⟨outline, hparse, -⟩ := h.parses
    obtain ⟨source, size, hfits, -, rfl, -⟩ := (parse_eq_ok_iff ..).mp hparse
    exact ⟨source, size, hfits, rfl, by rw [← h.rows, hfits.sheetOf]⟩
  · intro hparts
    obtain ⟨source, size, hfits, rfl, rfl⟩ := hparts
    have hparse := (parse_eq_ok_iff (source.text opener) none opener _).mpr
      ⟨source, size, hfits, by simp, rfl, rfl⟩
    exact ⟨⟨_, hparse, source.map_content_layers⟩, hfits.sheetOf⟩

/-! ## Edits -/

/-- One edit of a session. -/
inductive Edit where
  | setKey (layer key : Int) (value : Text) (keyCount : Option Int)
  | addLayer (template : Template) (validate : Bool)

/-- The text after an edit. -/
def Edit.apply (renderer : Renderer) (opener text : Text) : Edit → Except AdditionFault Text
  | .setKey layer key value keyCount =>
    (Keymap.setKey text layer key value keyCount opener).mapError .source
  | .addLayer template validate => Keymap.addLayer renderer text template validate

/-- The texts after each edit of a session. -/
def applyEach (renderer : Renderer) (opener text : Text) :
    List Edit → Except AdditionFault (List Text)
  | [] => .ok []
  | edit :: rest => do
    let edited ← edit.apply renderer opener text
    return edited :: (← applyEach renderer opener edited rest)

/-- A value for a key: it is exactly a key, and its end makes no pair with anything. -/
structure Sole (opener value : Text) : Prop where
  exact : Exact opener value
  slash : value.getLast? ≠ some '/'
  backslash : value.getLast? ≠ some '\\'

/-- A value is such a one if it is a portable token, whatever the opener. -/
theorem sole_iff (opener value : Text) :
    Sole opener value ↔ ∃ token : Token, token.Portable ∧ value = token.text := by
  constructor
  · intro h
    obtain ⟨token, hfits, hdepth, rfl⟩ := (exact_iff ..).mp h.exact
    exact ⟨token, ⟨hfits, hdepth, h.slash, h.backslash⟩, rfl⟩
  · rintro ⟨token, h, rfl⟩
    exact ⟨(exact_iff ..).mpr ⟨token, h.fits, h.depth, rfl⟩, h.slash, h.backslash⟩

/-- A comma with blanks around it. -/
def SpacedComma (text : Text) : Prop :=
  ∃ ahead behind : Text, text = ahead ++ ',' :: behind ∧ ahead.AllBlank ∧ behind.AllBlank

/-- What an edit asks of a sheet, and the sheet that it leads to. A row is labelled with the number
of the rows before it, as the renderer writes it. -/
inductive Sheet.Step (renderer : Renderer) (opener : Text) (sheet : Sheet) :
    Edit → Sheet → Prop where
  | setKey {layer key : Int} {value : Text} {keyCount : Option Int} :
      Sole opener value → (∀ expected ∈ keyCount, expected = sheet.width) →
      Sheet.Step renderer opener sheet (.setKey layer key value keyCount)
        (sheet.overwrite layer key value)
  | addLayer {template : Template} {label : Text} (validate : Bool) :
      template.opener = opener → '(' ∉ template.separator →
      renderer sheet.length template.labelPattern = .ok label → '(' ∉ label →
      SpacedComma template.joiner → Sole opener template.placeholder →
      Sheet.Step renderer opener sheet (.addLayer template validate)
        (sheet.addRow (template.separator ++ label) template.placeholder)

/-- A session of a sheet, with the sheets after each of its edits. -/
inductive Sheet.Session (renderer : Renderer) (opener : Text) :
    Sheet → List Edit → List Sheet → Prop where
  | done (sheet : Sheet) : Sheet.Session renderer opener sheet [] []
  | edit {sheet next : Sheet} {edit : Edit} {rest : List Edit} {later : List Sheet} :
      sheet.Step renderer opener edit next → Sheet.Session renderer opener next rest later →
      Sheet.Session renderer opener sheet (edit :: rest) (next :: later)

/-! ## Setting a key -/

namespace Source

variable {opener : Text} {source : Source} {size : Nat}

omit [Machine] in
/-- Overwriting a token overwrites its cell. -/
theorem sheet_overwrite (source : Source) (layer key : Int) (token : Token) :
    (source.overwrite layer key token).sheet = source.sheet.overwrite layer key token.text := by
  by_cases hnonneg : 0 ≤ layer ∧ 0 ≤ key
  · simp only [overwrite, Sheet.overwrite, if_pos hnonneg, sheet]
    apply map_modify
    intro passage
    -- All arguments but one keep their characters.
    have hcells := @map_modify _ _ (fun arg : Argument Token => arg.token.text)
      (Argument.write token) (fun _ => token.text) (fun _ => rfl) key.toNat passage.args
    rw [Passage.overwrite, hcells, List.set_eq_modify]
  · simp only [overwrite, Sheet.overwrite, if_neg hnonneg]

/-- Setting a key of a source overwrites its cell. -/
theorem Fits.setKey {value : Text} {keyCount : Option Int} (h : source.Fits opener size)
    (layer key : Int) (hvalue : Sole opener value)
    (hcount : ∀ expected ∈ keyCount, expected = size) :
    ∃ edited : Source, edited.Fits opener size ∧
      Keymap.setKey (source.text opener) layer key value keyCount opener =
        .ok (edited.text opener) ∧
      edited.sheet = source.sheet.overwrite layer key value := by
  obtain ⟨token, htoken, rfl⟩ := (sole_iff ..).mp hvalue
  obtain ⟨hfits, hset⟩ := h.setKey_overwrite layer key htoken hcount
  exact ⟨_, hfits, hset, source.sheet_overwrite layer key token⟩

/-! ## Adding a layer -/

/-- Adding a layer to a source adds a row of placeholders. -/
theorem Fits.addLayer {renderer : Renderer} {template : Template} {label : Text}
    (h : source.Fits opener size) (hopener : template.opener = opener)
    (hseparator : '(' ∉ template.separator)
    (hwritten : renderer source.sheet.length template.labelPattern = .ok label)
    (hlabel : '(' ∉ label) (hjoiner : SpacedComma template.joiner)
    (hplaceholder : Sole opener template.placeholder) (validate : Bool) :
    ∃ edited : Source, edited.Fits opener size ∧
      Keymap.addLayer renderer (source.text opener) template validate = .ok (edited.text opener) ∧
      edited.sheet = source.sheet.addRow (template.separator ++ label) template.placeholder := by
  obtain ⟨ahead, behind, hjoiner, hahead, hbehind⟩ := hjoiner
  obtain ⟨token, hlast, hdepth, htoken⟩ := (exact_iff ..).mp hplaceholder.exact
  obtain ⟨n, rfl⟩ := h.exists_size_eq_succ
  have hend := hplaceholder.backslash
  rw [htoken] at hend
  let args := row token ahead behind [] n
  have hlength : args.length = n + 1 := length_row token ahead behind [] n
  -- What is written for the new layer is a passage of its own.
  have hpassage : Passage.Fits opener ⟨template.separator ++ label, args⟩ :=
    { gap := marker_not_within (by simp [hseparator, hlabel])
      args_ne_nil := List.ne_nil_of_length_eq_add_one hlength
      args := fit_row Text.allBlank_nil hahead hbehind hlast (hlast.before_blanks hahead hend) n
      depth := depthAll_row [] n hdepth 0 }
  have hcount : (source.outline opener).layerCount = source.sheet.length := by
    simp [Outline.layerCount, outline, sheet]
  have hwrite := Template.write_of_label (n + 1) hwritten
  rw [← hcount] at hwrite
  have htext : template.separator ++ (label ++ marker template.opener ++ template.keys (n + 1) ++
      [')']) = Passage.text opener ⟨template.separator ++ label, args⟩ := by
    simp [args, Passage.text, text_row, Template.keys, hjoiner, htoken, hopener]
  have hadd := h.add hpassage hlength
  refine ⟨_, hadd, addLayer_source hopener h hadd hwrite htext validate, ?_⟩
  -- Its cells are the placeholder, as often as the other layers have keys.
  have hcells : args.map (·.token.text) = List.replicate (n + 1) template.placeholder := by
    rw [List.eq_replicate_iff, List.length_map, hlength]
    refine ⟨rfl, fun cell hcell => ?_⟩
    obtain ⟨arg, harg, rfl⟩ := List.mem_map.mp hcell
    rw [token_of_mem_row harg, htoken]
  rw [Sheet.addRow, h.width_sheet, ← hcells]
  simp [sheet, Source.add]

end Source

/-! ## Sessions -/

namespace Shows

variable {renderer : Renderer} {opener text : Text} {sheet next : Sheet} {edit : Edit}

/-- An edit of a text does to its sheet what the edit of the sheet does. -/
theorem step (h : Shows opener text sheet) (hstep : sheet.Step renderer opener edit next) :
    ∃ edited, edit.apply renderer opener text = .ok edited ∧ Shows opener edited next := by
  obtain ⟨source, size, hfits, rfl, rfl⟩ := (shows_iff ..).mp h
  cases hstep with
  | @setKey layer key value keyCount hvalue hcount =>
    rw [hfits.width_sheet] at hcount
    obtain ⟨edited, hedited, hset, hsheet⟩ := hfits.setKey layer key hvalue hcount
    refine ⟨edited.text opener, ?_, (shows_iff ..).mpr ⟨edited, size, hedited, rfl, hsheet.symm⟩⟩
    rw [Edit.apply, hset]
    rfl
  | @addLayer template label validate hopener hseparator hwritten hlabel hjoiner hplaceholder =>
    obtain ⟨edited, hedited, hadd, hsheet⟩ :=
      hfits.addLayer hopener hseparator hwritten hlabel hjoiner hplaceholder validate
    exact ⟨edited.text opener, hadd, (shows_iff ..).mpr ⟨edited, size, hedited, rfl, hsheet.symm⟩⟩

/-- The edits of a session all succeed, and the texts show the sheets of the session. -/
theorem session {edits : List Edit} {sheets : List Sheet} (h : Shows opener text sheet)
    (hsession : sheet.Session renderer opener edits sheets) :
    ∃ texts, applyEach renderer opener text edits = .ok texts ∧
      List.Forall₂ (Shows opener) texts sheets := by
  induction hsession generalizing text with
  | done sheet => exact ⟨[], rfl, .nil⟩
  | edit hstep _ ih =>
    obtain ⟨edited, happly, hshows⟩ := h.step hstep
    obtain ⟨texts, heach, hall⟩ := ih hshows
    refine ⟨edited :: texts, ?_, .cons hshows hall⟩
    rw [applyEach, happly]
    simp only [bind, Except.bind, heach]
    rfl

end Shows

end

open Usual

end Keymap
