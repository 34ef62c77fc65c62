import Keymap.Node.Dump
import Keymap.Proofs.Layout
import Keymap.Proofs.Lines
import Mathlib.Data.List.Forall2

/-!
# Dumps read back

A dump inserts words and names as they are and shows the structure of trees by indentation and the
order of lines alone. For a text that parses nothing is lost by that: words and names hold no
blanks, so a line falls into its fields at its spaces, and the spaces before the first field count
the level. Where the level goes back to that of a node, its parameters have ended.

## Key results

- `DumpRow.ofLine_line` — a line is read back to its indentation and its fields
- `Node.skeletonAll_eq_of_rows` — the lines of trees tell the trees
- `dump_lossless` — texts with the same dump have the same trees
-/

namespace Keymap

/-! ## Words and numbers -/

namespace Text

/-- A text that is not empty and holds no blank. -/
def Solid (chars : Text) : Prop :=
  chars ≠ [] ∧ ∀ c ∈ chars, isBlank c = false

theorem solid_of_all {chars : Text} (hne : chars ≠ []) (hall : chars.all (!isBlank ·) = true) :
    chars.Solid :=
  ⟨hne, fun c hc => by simpa using List.all_eq_true.mp hall c hc⟩

theorem Solid.cons {c : Char} {chars : Text} (hc : isBlank c = false) (h : chars.Solid) :
    Solid (c :: chars) :=
  ⟨List.cons_ne_nil c chars, List.forall_mem_cons.mpr ⟨hc, h.2⟩⟩

/-- A number is written without blanks. -/
theorem solid_ofNat (n : Nat) : (ofNat n).Solid := by
  refine ⟨Nat.toDigits_ne_nil, fun c hc => ?_⟩
  have hdigit := isDigit_of_mem_ofNat hc
  simp only [Char.isDigit, Bool.and_eq_true, decide_eq_true_eq, UInt32.le_iff_toNat_le] at hdigit
  have hrange : 48 ≤ c.toNat ∧ c.toNat ≤ 57 := hdigit
  simp only [isBlank, Bool.or_eq_false_iff, Bool.and_eq_false_iff, decide_eq_false_iff_not,
    beq_eq_false_iff_ne]
  omega

/-- A number is told by the way it is written. -/
theorem ofNat_injective {n m : Nat} (h : ofNat n = ofNat m) : n = m := by
  have hread := congrArg (Nat.ofDigitChars 10 · 0) h
  simpa [ofNat, Nat.ofDigitChars_toDigits] using hread

end Text

/-! ## Lines and their fields -/

/-- A line of a dump: the number of spaces before it, and the fields between the others. -/
structure DumpRow where
  indent : Nat
  fields : List Text

namespace DumpRow

/-- The characters of a line. -/
def line (row : DumpRow) : Text :=
  List.replicate row.indent ' ' ++ [' '].intercalate row.fields

/-- The spaces that a line begins with, and its fields behind them. -/
def ofLine (line : Text) : DumpRow :=
  ⟨(line.takeWhile (· = ' ')).length, (line.dropWhile (· = ' ')).splitOn ' '⟩

/-- A line that can be read back: it has fields, none of which is empty or holds a blank. -/
structure Legible (row : DumpRow) : Prop where
  fields_ne_nil : row.fields ≠ []
  solid : ∀ field ∈ row.fields, field.Solid

variable {row : DumpRow}

/-- The fields of a line begin with something else than a space. -/
theorem Legible.exists_cons (h : row.Legible) :
    ∃ c rest, [' '].intercalate row.fields = c :: rest ∧ isBlank c = false := by
  obtain ⟨field, fields, hfields⟩ := List.exists_cons_of_ne_nil h.fields_ne_nil
  have hfield := h.solid field (by simp [hfields])
  obtain ⟨c, chars, rfl⟩ := List.exists_cons_of_ne_nil hfield.1
  have hc := hfield.2 c (by simp)
  cases fields with
  | nil => exact ⟨c, chars, by simp [hfields], hc⟩
  | cons next later => exact ⟨c, _, by rw [hfields, List.intercalate_cons_cons]; rfl, hc⟩

/-- A blank is in no field. -/
theorem Legible.not_mem {c : Char} (h : row.Legible) (hc : isBlank c = true) :
    ∀ field ∈ row.fields, c ∉ field := by
  intro field hfield hmem
  rw [(h.solid field hfield).2 c hmem] at hc
  exact nomatch hc

/-- A line is read back to its indentation and its fields. -/
theorem ofLine_line (h : row.Legible) : ofLine row.line = row := by
  obtain ⟨c, rest, hcons, hc⟩ := h.exists_cons
  have hspace : ¬ c = ' ' := by
    rintro rfl
    exact nomatch hc
  have hpass : ∀ d ∈ List.replicate row.indent ' ', decide (d = ' ') = true := by
    intro d hd
    simpa using List.eq_of_mem_replicate hd
  have hsplit := List.splitOn_intercalate ' ' (h.not_mem rfl) h.fields_ne_nil
  rw [ofLine, line, List.takeWhile_append_of_pos hpass, List.dropWhile_append_of_pos hpass, hcons]
  rw [hcons] at hsplit
  simp [hspace, hsplit]

/-- What stands in fields joined by spaces is a space or stands in a field. -/
theorem mem_of_mem_intercalate {c : Char} {fields : List Text}
    (h : c ∈ [' '].intercalate fields) : c = ' ' ∨ ∃ field ∈ fields, c ∈ field := by
  induction fields with
  | nil => exact nomatch h
  | cons field later ih =>
    cases later with
    | nil => exact .inr ⟨field, by simp, by simpa using h⟩
    | cons next later =>
      rw [List.intercalate_cons_cons, List.append_assoc, List.mem_append] at h
      rcases h with hfield | hrest
      · exact .inr ⟨field, by simp, hfield⟩
      · rcases List.mem_cons.mp hrest with rfl | hlater
        · exact .inl rfl
        · rcases ih hlater with rfl | ⟨other, hother, hin⟩
          · exact .inl rfl
          · exact .inr ⟨other, List.mem_cons_of_mem _ hother, hin⟩

/-- No line holds a line feed. -/
theorem newline_not_mem_line (h : row.Legible) : '\n' ∉ row.line := by
  rw [line, List.mem_append, not_or]
  refine ⟨fun hmem => absurd (List.eq_of_mem_replicate hmem) (by decide), fun hmem => ?_⟩
  rcases mem_of_mem_intercalate hmem with hspace | ⟨field, hfield, hin⟩
  · exact absurd hspace (by decide)
  · exact h.not_mem rfl field hfield hin

/-- The line of a layer: its number and how many keys it has. -/
def layer (number keyCount : Nat) : DumpRow :=
  ⟨0, ["Layer".toList, spell number, '(' :: spell keyCount, "keys)".toList]⟩

/-- The line of a layer can be read back. -/
theorem legible_layer (number keyCount : Nat) : (layer number keyCount).Legible where
  fields_ne_nil := List.cons_ne_nil _ _
  solid field hfield := by
    simp only [layer, List.mem_cons, List.not_mem_nil, or_false] at hfield
    rcases hfield with rfl | rfl | rfl | rfl
    · exact Text.solid_of_all (by decide) rfl
    · exact Text.solid_ofNat number
    · exact (Text.solid_ofNat keyCount).cons rfl
    · exact Text.solid_of_all (by decide) rfl

end DumpRow

namespace Node

/-! ## Nodes and their lines -/

/-- The fields of a node's line: its kind, its word or name, and its offset. -/
def fields : Key → List Text
  | .word content offset _ => ["Word:".toList, content, '@' :: spell offset]
  | .call name _ offset _ _ => ["Call:".toList, name, '@' :: spell offset]
  | .strange value => nomatch value

theorem fields_ne_nil (key : Key) : key.fields ≠ [] := by
  cases key with
  | strange value => cases value
  | _ => simp [fields]

mutual

/-- The nodes below a key at a depth, each with its own depth. -/
def beneath (depth : Nat) : Key → List (Nat × Key)
  | .word .. => []
  | .call _ params _ _ _ => walk (depth + 1) params
  | .strange value => nomatch value

/-- Keys at a depth and the nodes below them in pre-order, each with its depth. -/
def walk (depth : Nat) : List Key → List (Nat × Key)
  | [] => []
  | key :: rest => (depth, key) :: beneath depth key ++ walk depth rest

end

end Node

/-- The line of a node at a depth, with what it begins with. -/
def DumpRow.node (label : List Text) (place : Nat × Key) : DumpRow :=
  ⟨2 * place.1, label ++ place.2.fields⟩

/-- The lines of a key and the nodes below it, the first with what it begins with. -/
def Node.rows (label : List Text) (depth : Nat) (key : Key) : List DumpRow :=
  DumpRow.node label (depth, key) :: (key.beneath depth).map (DumpRow.node [])

/-- The number of a key, as a field. -/
def bracketed (number : Nat) : Text :=
  "[".toList ++ spell number ++ "]".toList

theorem solid_bracketed (number : Nat) : (bracketed number).Solid := by
  refine ⟨by simp [bracketed], fun c hc => ?_⟩
  have hdigits := Text.solid_ofNat number
  rw [bracketed, List.mem_append, List.mem_append] at hc
  rcases hc with (hopen | hdigit) | hclose
  · rw [List.mem_singleton.mp hopen]
    rfl
  · exact hdigits.2 c hdigit
  · rw [List.mem_singleton.mp hclose]
    rfl

/-- The lines of the keys of a layer, each begun with its number. -/
def keyRows (number : Nat) : List Key → List DumpRow
  | [] => []
  | key :: rest =>
    key.rows [bracketed number] 1 ++ keyRows (number + 1) rest

/-- The lines of layers. -/
def layerRows (number : Nat) : List (List Key) → List DumpRow
  | [] => []
  | layer :: rest =>
    DumpRow.layer number layer.length :: keyRows 0 layer ++ layerRows (number + 1) rest

/-! ## What a dump prints -/

/-- The line of a key that begins with its number. -/
theorem line_node_number (number depth : Nat) (key : Key) :
    (DumpRow.node [bracketed number] (depth, key)).line =
      indented depth ("[".toList ++ spell number ++ "] ".toList ++
        [' '].intercalate key.fields) := by
  simp [DumpRow.node, DumpRow.line, indented, bracketed,
    List.intercalate_cons_of_ne_nil (Node.fields_ne_nil key)]

mutual

/-- A dump of a tree has the lines of its nodes. -/
theorem Node.dump_eq (depth : Nat) (label : Text) (key : Key) :
    key.dump depth label = .ok (indented depth (label ++ [' '].intercalate key.fields) ::
      ((key.beneath depth).map (DumpRow.node [])).map DumpRow.line) := by
  match key with
  | .word content offset stop =>
    rw [Node.dump, beneath, fields]
    simp [indented, List.intercalate_cons_cons]
  | .call name params offset stop content =>
    rw [Node.dump, Node.dumpAll_eq (depth + 1) params, beneath, fields]
    simp [indented, List.intercalate_cons_cons]

/-- A dump of trees has the lines of their nodes. -/
theorem Node.dumpAll_eq (depth : Nat) (keys : List Key) :
    Node.dumpAll depth keys = .ok (((walk depth keys).map (DumpRow.node [])).map DumpRow.line) := by
  match keys with
  | [] => rfl
  | key :: rest =>
    rw [Node.dumpAll, Node.dump_eq depth [] key, Node.dumpAll_eq depth rest, walk, List.map_append,
      List.map_append]
    rfl

end

/-- A dump of the keys of a layer has their lines. -/
theorem Node.dumpKeys_eq (number : Nat) (keys : List Key) :
    Node.dumpKeys number keys = .ok ((keyRows number keys).map DumpRow.line) := by
  induction keys generalizing number with
  | nil => rfl
  | cons key rest ih =>
    rw [Node.dumpKeys, Node.dump_eq, ih, keyRows, Node.rows, List.map_append, List.map_cons,
      line_node_number]
    rfl

/-- A dump of layers has their lines. -/
theorem Node.dumpLayers_eq (number : Nat) (layers : List (List Key)) :
    Node.dumpLayers number layers = .ok ((layerRows number layers).map DumpRow.line) := by
  induction layers generalizing number with
  | nil => rfl
  | cons layer rest ih =>
    have hline : (DumpRow.layer number layer.length).line = "Layer ".toList ++ spell number ++
        " (".toList ++ spell layer.length ++ " keys)".toList := by
      simp [DumpRow.layer, DumpRow.line, List.intercalate_cons_cons]
    rw [Node.dumpLayers, Node.dumpKeys_eq, ih, layerRows, List.map_append, List.map_cons, hline]
    rfl

/-! ## What the lines tell -/

/-- What a dump shows of a tree: the kinds of its nodes, their words and names, which parameters
they have, and where they begin. -/
inductive Skeleton where
  | word (content : Text) (offset : Nat)
  | call (name : Text) (params : List Skeleton) (offset : Nat)

namespace Node

mutual

/-- A tree without the ends and the contents of its calls. -/
def skeleton : Key → Skeleton
  | .word content offset _ => .word content offset
  | .call name params offset _ _ => .call name (skeletonAll params) offset
  | .strange value => nomatch value

/-- Trees without the ends and the contents of their calls. -/
def skeletonAll : List Key → List Skeleton
  | [] => []
  | key :: rest => skeleton key :: skeletonAll rest

end

end Node

/-- Lines of which the first, if there is one, is indented for a depth at most. -/
def Outdented (depth : Nat) (rows : List DumpRow) : Prop :=
  ∀ row ∈ rows.head?, row.indent ≤ 2 * depth

/-- Lines behind those of trees are indented as the trees at most, or the trees come first. -/
theorem Outdented.walk_append {depth : Nat} {rows : List DumpRow} (keys : List Key)
    (h : Outdented depth rows) :
    Outdented depth ((Node.walk depth keys).map (DumpRow.node []) ++ rows) := by
  cases keys with
  | nil => exact h
  | cons key rest =>
    rw [Node.walk]
    rintro _ ⟨⟩
    exact Nat.le_refl _

/-- Lines that are indented for a depth at most are so for the next one. -/
theorem Outdented.succ {depth : Nat} {rows : List DumpRow} (h : Outdented depth rows) :
    Outdented (depth + 1) rows :=
  fun row hrow => Nat.le_trans (h row hrow) (by omega)

/-- Lines behind those of a layer are indented as its keys at most, or the keys come first. -/
theorem Outdented.keyRows_append {rows : List DumpRow} (number : Nat) (keys : List Key)
    (h : Outdented 0 rows) : Outdented 1 (keyRows number keys ++ rows) := by
  cases keys with
  | nil => exact h.succ
  | cons key rest =>
    rw [keyRows, Node.rows]
    rintro _ ⟨⟩
    exact Nat.le_refl _

/-- The lines of layers begin with that of a layer, which is not indented. -/
theorem outdented_layerRows (number : Nat) (layers : List (List Key)) :
    Outdented 0 (layerRows number layers) := by
  cases layers with
  | nil => exact fun row hrow => nomatch hrow
  | cons layer rest =>
    rw [layerRows]
    rintro _ ⟨⟩
    exact Nat.le_refl _

namespace Node

mutual

/-- Where the lines behind a tree go back to its depth, the lines tell the tree and what is behind
it. -/
theorem skeleton_eq_of_rows {label : List Text} {depth : Nat} {a b : Key}
    {rest rest' : List DumpRow} (hrest : Outdented depth rest) (hrest' : Outdented depth rest')
    (h : a.rows label depth ++ rest = b.rows label depth ++ rest') :
    a.skeleton = b.skeleton ∧ rest = rest' := by
  rw [rows, rows, List.cons_append, List.cons_append, List.cons.injEq] at h
  obtain ⟨hnode, htail⟩ := h
  have hfields : a.fields = b.fields := List.append_cancel_left (congrArg DumpRow.fields hnode)
  match a, b with
  | .word content offset stop, .word content' offset' stop' =>
    simp only [fields, List.cons.injEq, true_and, and_true] at hfields
    obtain ⟨rfl, hoffset⟩ := hfields
    rw [skeleton, skeleton, Text.ofNat_injective hoffset]
    exact ⟨rfl, htail⟩
  | .call name params offset stop content, .call name' params' offset' stop' content' =>
    simp only [fields, List.cons.injEq, true_and, and_true] at hfields
    obtain ⟨rfl, hoffset⟩ := hfields
    rw [beneath, beneath] at htail
    obtain ⟨hparams, hbehind⟩ := skeletonAll_eq_of_rows hrest hrest' htail
    rw [skeleton, skeleton, Text.ofNat_injective hoffset, hparams]
    exact ⟨rfl, hbehind⟩
  | .word .., .call .. | .call .., .word .. => simp [fields] at hfields

/-- Where the lines behind trees go back to a smaller depth, the lines tell the trees and what is
behind them. -/
theorem skeletonAll_eq_of_rows {depth : Nat} {as bs : List Key} {rest rest' : List DumpRow}
    (hrest : Outdented depth rest) (hrest' : Outdented depth rest')
    (h : (walk (depth + 1) as).map (DumpRow.node []) ++ rest =
      (walk (depth + 1) bs).map (DumpRow.node []) ++ rest') :
    skeletonAll as = skeletonAll bs ∧ rest = rest' := by
  match as, bs with
  | [], [] => exact ⟨rfl, h⟩
  | a :: as, b :: bs =>
    rw [walk, walk, List.map_append, List.map_append, List.append_assoc, List.append_assoc] at h
    obtain ⟨hkey, hbehind⟩ :=
      skeleton_eq_of_rows (hrest.succ.walk_append as) (hrest'.succ.walk_append bs) h
    obtain ⟨hkeys, hrests⟩ := skeletonAll_eq_of_rows hrest hrest' hbehind
    exact ⟨by rw [skeletonAll, skeletonAll, hkey, hkeys], hrests⟩
  | a :: as, [] =>
    -- A key would be indented more than what is behind the trees.
    have hle := hrest' (DumpRow.node [] (depth + 1, a)) (congrArg List.head? h.symm)
    simp only [DumpRow.node] at hle
    omega
  | [], b :: bs =>
    have hle := hrest (DumpRow.node [] (depth + 1, b)) (congrArg List.head? h)
    simp only [DumpRow.node] at hle
    omega

end

end Node

/-- The lines of the keys of a layer tell the keys and what is behind them. -/
theorem skeletonAll_eq_of_keyRows {number : Nat} {keys keys' : List Key} {rest rest' : List DumpRow}
    (hrest : Outdented 0 rest) (hrest' : Outdented 0 rest')
    (h : keyRows number keys ++ rest = keyRows number keys' ++ rest') :
    Node.skeletonAll keys = Node.skeletonAll keys' ∧ rest = rest' := by
  induction keys generalizing number keys' with
  | nil =>
    cases keys' with
    | nil => exact ⟨rfl, h⟩
    | cons key' keys' =>
      have hle := hrest _ (congrArg List.head? h)
      exact absurd hle (by simp [DumpRow.node])
  | cons key keys ih =>
    cases keys' with
    | nil =>
      have hle := hrest' _ (congrArg List.head? h.symm)
      exact absurd hle (by simp [DumpRow.node])
    | cons key' keys' =>
      rw [keyRows, keyRows, List.append_assoc, List.append_assoc] at h
      obtain ⟨hkey, hbehind⟩ :=
        Node.skeleton_eq_of_rows (hrest.keyRows_append _ keys) (hrest'.keyRows_append _ keys') h
      obtain ⟨hkeys, hrests⟩ := ih hbehind
      exact ⟨by rw [Node.skeletonAll, Node.skeletonAll, hkey, hkeys], hrests⟩

/-- The lines of layers tell the layers. -/
theorem skeletons_eq_of_layerRows {number : Nat} {layers layers' : List (List Key)}
    (h : layerRows number layers = layerRows number layers') :
    layers.map Node.skeletonAll = layers'.map Node.skeletonAll := by
  induction layers generalizing number layers' with
  | nil =>
    cases layers' with
    | nil => rfl
    | cons layer' layers' => exact nomatch h
  | cons layer layers ih =>
    cases layers' with
    | nil => exact nomatch h
    | cons layer' layers' =>
      rw [layerRows, layerRows, List.cons_append, List.cons_append] at h
      obtain ⟨hlayer, hlayers⟩ := skeletonAll_eq_of_keyRows (outdented_layerRows _ layers)
        (outdented_layerRows _ layers') (List.tail_eq_of_cons_eq h)
      rw [List.map_cons, List.map_cons, hlayer, ih hlayers]

/-! ## Lines that can be read back -/

mutual

/-- A key and the nodes below it, in pre-order. -/
theorem Node.map_snd_beneath (depth : Nat) (key : Key) :
    key :: (key.beneath depth).map Prod.snd = key.nodes := by
  match key with
  | .word content offset stop => rw [beneath, nodes, List.map_nil]
  | .call name params offset stop content => rw [beneath, nodes, Node.map_snd_walk]

/-- Keys and the nodes below them, in pre-order. -/
theorem Node.map_snd_walk (depth : Nat) (keys : List Key) :
    (walk depth keys).map Prod.snd = nodesAll keys := by
  match keys with
  | [] => rfl
  | key :: rest =>
    rw [walk, nodesAll, List.map_append, List.map_cons, Node.map_snd_beneath depth key,
      Node.map_snd_walk depth rest]

end

/-- The fields of a node can be read back if it has a word or a name of the usual kind. -/
theorem Node.Shaped.solid {text : Text} {key : Key} (h : key.Shaped text) :
    ∀ field ∈ key.fields, field.Solid := by
  cases key with
  | strange value => cases value
  | word content offset stop =>
    simp only [fields, List.forall_mem_cons, List.not_mem_nil, false_imp_iff, implies_true,
      and_true]
    exact ⟨Text.solid_of_all (by decide) rfl, ⟨h.ne_nil, h.blank⟩,
      (Text.solid_ofNat offset).cons rfl⟩
  | call name params offset stop content =>
    simp only [fields, List.forall_mem_cons, List.not_mem_nil, false_imp_iff, implies_true,
      and_true]
    exact ⟨Text.solid_of_all (by decide) rfl, ⟨h.1.ne_nil, h.1.blank⟩,
      (Text.solid_ofNat offset).cons rfl⟩

/-- Trees of which every node can be read back on its line. -/
def Readable (keys : List Key) : Prop :=
  ∀ node ∈ Node.nodesAll keys, ∀ field ∈ node.fields, field.Solid

/-- Trees of a text that parses can be read back. -/
theorem readable_of_parse [Machine] {text opener : Text} {keyCount : Option Int} {outline : Outline}
    (h : parse text keyCount opener = .ok outline) : ∀ layer ∈ outline.layers, Readable layer := by
  obtain ⟨source, size, hfits, -, rfl, rfl⟩ := (parse_eq_ok_iff ..).mp h
  intro layer hlayer node hnode
  obtain ⟨first, passage, later, hpassages, rfl⟩ := Source.exists_passage hlayer
  have hpassage := hfits.passages passage (by rw [hpassages]; simp)
  have hplaced := Passage.placed hpassage
    (Text.holds_append (passagesText opener first) (passage.text opener) [])
  exact (hplaced.nodes node hnode).shaped.solid

/-- The line of a node can be read back if its label and its own fields can. -/
theorem legible_node {label : List Text} {place : Nat × Key} (hlabel : ∀ field ∈ label, field.Solid)
    (h : ∀ field ∈ place.2.fields, field.Solid) : (DumpRow.node label place).Legible where
  fields_ne_nil := List.append_ne_nil_of_right_ne_nil label (Node.fields_ne_nil place.2)
  solid field hfield := by
    rcases List.mem_append.mp hfield with hin | hin
    · exact hlabel field hin
    · exact h field hin

/-! ## What a dump shows -/

/-- What the lines of a dump stand for: each layer, and each node in its layer with its depth. -/
def entries (layers : List (List Key)) : List (Option (Nat × Key)) :=
  layers.flatMap fun layer => none :: (Node.walk 1 layer).map some

/-- The line of a layer, or of a node at a depth. -/
def DumpRow.Shows : Option (Nat × Key) → DumpRow → Prop
  | none, row => ∃ number keyCount, row = layer number keyCount
  | some place, row => ∃ label, row = node label place

/-- Lines that can be read back and stand for entries, in their order. -/
def Printed (entries : List (Option (Nat × Key))) (rows : List DumpRow) : Prop :=
  List.Forall₂ (fun entry row => row.Shows entry ∧ row.Legible) entries rows

theorem Printed.append {entries later : List (Option (Nat × Key))} {rows rows' : List DumpRow}
    (h : Printed entries rows) (h' : Printed later rows') :
    Printed (entries ++ later) (rows ++ rows') :=
  List.rel_append h h'

/-- Lines that stand for entries can be read back. -/
theorem Printed.legible {entries : List (Option (Nat × Key))} {rows : List DumpRow}
    (h : Printed entries rows) : ∀ row ∈ rows, row.Legible := by
  induction h with
  | nil => exact nofun
  | cons hfirst _ ih => exact List.forall_mem_cons.mpr ⟨hfirst.2, ih⟩

/-- The lines of nodes stand for them. -/
theorem printed_map_node {places : List (Nat × Key)}
    (h : ∀ place ∈ places, ∀ field ∈ place.2.fields, field.Solid) :
    Printed (places.map some) (places.map (DumpRow.node [])) := by
  rw [Printed, List.forall₂_map_left_iff, List.forall₂_map_right_iff, List.forall₂_same]
  exact fun place hplace => ⟨⟨[], rfl⟩, legible_node nofun (h place hplace)⟩

/-- The lines of the keys of a layer stand for the keys and the nodes below them. -/
theorem printed_keyRows (number : Nat) {keys : List Key} (h : Readable keys) :
    Printed ((Node.walk 1 keys).map some) (keyRows number keys) := by
  induction keys generalizing number with
  | nil => exact .nil
  | cons key rest ih =>
    rw [Readable, Node.nodesAll, List.forall_mem_append, ← Node.map_snd_beneath 1 key,
      List.forall_mem_cons, List.forall_mem_map] at h
    obtain ⟨⟨hkey, hbeneath⟩, hrest⟩ := h
    have hlabel : ∀ field ∈ [bracketed number], field.Solid := by
      rw [List.forall_mem_singleton]
      exact solid_bracketed number
    have hfirst : DumpRow.Shows (some (1, key)) (DumpRow.node [bracketed number] (1, key)) :=
      ⟨_, rfl⟩
    have hlegible := @legible_node [bracketed number] (1, key) hlabel hkey
    rw [Node.walk, keyRows, Node.rows, List.map_append]
    exact .append (.cons ⟨hfirst, hlegible⟩ (printed_map_node hbeneath)) (ih _ hrest)

/-- The lines of layers stand for the layers and all their nodes. -/
theorem printed_layerRows (number : Nat) {layers : List (List Key)}
    (h : ∀ layer ∈ layers, Readable layer) :
    Printed (entries layers) (layerRows number layers) := by
  induction layers generalizing number with
  | nil => exact .nil
  | cons layer rest ih =>
    obtain ⟨hlayer, hrest⟩ := List.forall_mem_cons.mp h
    rw [entries, List.flatMap_cons, layerRows]
    exact .append (.cons ⟨⟨_, _, rfl⟩, DumpRow.legible_layer ..⟩ (printed_keyRows 0 hlayer))
      (ih _ hrest)

/-- There is an entry for each layer and each node. -/
theorem length_entries (layers : List (List Key)) :
    (entries layers).length = layers.length + (layers.flatMap Node.nodesAll).length := by
  induction layers with
  | nil => rfl
  | cons layer rest ih =>
    rw [entries] at ih
    rw [entries, List.flatMap_cons, List.flatMap_cons, List.length_append, List.length_append, ih,
      ← Node.map_snd_walk 1 layer]
    simp only [List.length_cons, List.length_map]
    omega

/-- A dump with one line for each layer and each node. The lines are in order, parents before their
parameters, and each of them is indented by two spaces for each level of its depth. -/
structure Dumped (layers : List (List Key)) (dump : Text) : Prop where
  lines : List.Forall₂ (fun entry line => (DumpRow.ofLine line).Shows entry) (entries layers)
    dump.lines
  length_lines : dump.lines.length = layers.length + (layers.flatMap Node.nodesAll).length

/-- A dump of layers is read back to their lines. -/
theorem exists_layersText {layers : List (List Key)} (hne : layers ≠ [])
    (h : ∀ layer ∈ layers, Readable layer) :
    ∃ dump, Node.layersText layers = .ok dump ∧
      dump.lines.map DumpRow.ofLine = layerRows 0 layers := by
  have hlegible : ∀ row ∈ layerRows 0 layers, row.Legible :=
    (printed_layerRows 0 h).legible
  have hrows : layerRows 0 layers ≠ [] := by
    obtain ⟨layer, rest, rfl⟩ := List.exists_cons_of_ne_nil hne
    exact List.cons_ne_nil _ _
  refine ⟨['\n'].intercalate ((layerRows 0 layers).map DumpRow.line), ?_, ?_⟩
  · rw [Node.layersText, Node.dumpLayers_eq]
    rfl
  · have hlines : ∀ line ∈ (layerRows 0 layers).map DumpRow.line, '\n' ∉ line :=
      List.forall_mem_map.mpr fun row hrow => DumpRow.newline_not_mem_line (hlegible row hrow)
    rw [Text.lines, List.splitOn_intercalate '\n' hlines (by simpa using hrows), List.map_map]
    exact (List.map_congr_left fun row hrow => DumpRow.ofLine_line (hlegible row hrow)).trans
      (List.map_id _)

/-- A dump of what a text parses to is lossless. Texts with the same dump have the same layers: as
many of them, with the same trees. The dump has one line for each layer and each node. -/
theorem dump_lossless [Machine] {text text' opener opener' : Text} {keyCount keyCount' : Option Int}
    {outline outline' : Outline} (h : parse text keyCount opener = .ok outline)
    (h' : parse text' keyCount' opener' = .ok outline') :
    ∃ dump dump', Node.layersText outline.layers = .ok dump ∧
      Node.layersText outline'.layers = .ok dump' ∧ Dumped outline.layers dump ∧
      (dump = dump' →
        outline.layers.map Node.skeletonAll = outline'.layers.map Node.skeletonAll) := by
  obtain ⟨dump, hdump, hrows⟩ :=
    exists_layersText (layers_ne_nil_of_parse h) (readable_of_parse h)
  obtain ⟨dump', hdump', hrows'⟩ :=
    exists_layersText (layers_ne_nil_of_parse h') (readable_of_parse h')
  have hprinted := printed_layerRows 0 (readable_of_parse h)
  have hlines : List.Forall₂ (fun entry line => (DumpRow.ofLine line).Shows entry)
      (entries outline.layers) dump.lines := by
    rw [← List.forall₂_map_right_iff (f := DumpRow.ofLine), hrows]
    exact hprinted.imp fun entry row hrow => hrow.1
  refine ⟨dump, dump', hdump, hdump', ⟨hlines, ?_⟩, ?_⟩
  · rw [← hlines.length_eq, length_entries]
  · rintro rfl
    rw [hrows] at hrows'
    exact skeletons_eq_of_layerRows hrows'

open Usual

/-- A call with a blank behind its parameter, and the same one without, after another opener. Their
contents and ends differ, which a dump does not show. -/
theorem dump_of_call_with_blank :
    let layer : List Key :=
      [.word "A".toList 2 3, .call "f".toList [.word "B".toList 6 7] 4 9 "f(B )".toList]
    let layer' : List Key :=
      [.word "A".toList 2 3, .call "f".toList [.word "B".toList 6 7] 4 8 "f(B)".toList]
    parse "K(A,f(B ))".toList none "K".toList = .ok ⟨[layer], 10⟩ ∧
      parse "J(A,f(B))".toList (some 2) "J".toList = .ok ⟨[layer'], 9⟩ ∧
      ∃ dump dump', Node.layersText [layer] = .ok dump ∧ Node.layersText [layer'] = .ok dump' ∧
        Dumped [layer] dump ∧
        (dump = dump' → [layer].map Node.skeletonAll = [layer'].map Node.skeletonAll) := by
  intro layer layer'
  have hparse : parse "K(A,f(B ))".toList none "K".toList = .ok ⟨[layer], 10⟩ := by decide +kernel
  have hparse' : parse "J(A,f(B))".toList (some 2) "J".toList = .ok ⟨[layer'], 9⟩ := by
    decide +kernel
  exact ⟨hparse, hparse', dump_lossless hparse hparse'⟩

end Keymap
