import Keymap.Proofs.Source

/-!
# Sites

A site is a source with the place of one argument left open. Whatever is put there, the text around
it stays, the keys before it stay, and the keys after it move with the length of what is put there.

## Key results

- `Site.text_fill` — the argument stands between the text before and after the site
- `Site.layers_fill` — its key stands between the keys before and after the site
- `Site.Fits.fill` — what makes a source fit does not involve the other arguments
- `Source.exists_site` — every key of a source has a site
-/

namespace Keymap

/-! ## Keys and their indices -/

/-- A key at natural indices is looked up layer first. -/
theorem Outline.key?_natCast (outline : Outline) (layer key : Nat) :
    outline.key? layer key = outline.layers[layer]?.bind (·[key]?) := by
  rw [key?, if_pos ⟨Int.natCast_nonneg layer, Int.natCast_nonneg key⟩]
  rfl

/-- A key is found at natural indices only. -/
theorem Outline.exists_nat_of_key? {outline : Outline} {layer key : Int} {node : Key}
    (h : outline.key? layer key = some node) : ∃ l k : Nat, layer = l ∧ key = k := by
  rw [key?] at h
  split at h <;> rename_i hnonneg
  · exact ⟨_, _, (Int.toNat_of_nonneg hnonneg.1).symm, (Int.toNat_of_nonneg hnonneg.2).symm⟩
  · cases h

/-! ## Where keys lie -/

/-- Every key of arguments lies within their text. -/
theorem ArgumentList.le_offset_of_mem_keys {args : ArgumentList} {pos : Nat} {key : Key}
    (h : key ∈ args.keys pos) : pos ≤ key.offset := by
  induction args generalizing pos with
  | nil => simp at h
  | cons arg rest ih =>
    rw [keys_cons] at h
    rcases List.mem_cons.mp h with rfl | h
    · rw [Token.offset_key]
      omega
    · have := ih h
      omega

/-- Every key of arguments ends before the separator behind it. -/
theorem ArgumentList.stop_le_of_mem_keys {args : ArgumentList} {pos : Nat} {key : Key}
    (h : key ∈ args.keys pos) : key.stop ≤ pos + args.leading.length := by
  induction args generalizing pos with
  | nil => simp at h
  | cons arg rest ih =>
    rw [keys_cons] at h
    rw [leading_cons, List.length_append, List.length_cons]
    rcases List.mem_cons.mp h with rfl | h
    · rw [Token.stop_key, Argument.text]
      simp only [List.length_append]
      omega
    · have := ih h
      omega

/-- Arguments are as long as if each of them had a separator behind it. -/
theorem ArgumentList.length_text (args : ArgumentList) :
    args.text.length = args.leading.length := by
  induction args with
  | nil => simp
  | cons arg rest ih => simp [ih]

/-- Every key of an invocation lies after the place from which it is looked for. -/
theorem le_offset_of_mem_invocations {opener : Text} {passages : List Passage} {pos : Nat}
    {found : Invocation} {key : Key} (h : found ∈ invocations opener pos passages)
    (hkey : key ∈ found.keys) : pos ≤ key.offset := by
  obtain ⟨first, passage, later, -, rfl⟩ := exists_of_mem_invocations h
  have := ArgumentList.le_offset_of_mem_keys hkey
  omega

/-- Every key of an invocation ends within the text of the passages. -/
theorem stop_le_of_mem_invocations {opener : Text} {passages : List Passage} {pos : Nat}
    {found : Invocation} {key : Key} (h : found ∈ invocations opener pos passages)
    (hkey : key ∈ found.keys) : key.stop ≤ pos + (passagesText opener passages).length := by
  obtain ⟨first, passage, later, rfl, rfl⟩ := exists_of_mem_invocations h
  have hstop := ArgumentList.stop_le_of_mem_keys hkey
  rw [← ArgumentList.length_text] at hstop
  simp only [passagesText_append, passagesText_cons, Passage.text, List.length_append] at hstop ⊢
  omega

/-- Passages that are moved have the relocated keys. -/
theorem map_relocate_invocations {opener : Text} {f : Nat → Nat} {pos pos' : Nat}
    (hf : ∀ n, f (pos + n) = pos' + n) (passages : List Passage) :
    (invocations opener pos passages).map (·.keys.map (Node.relocate f)) =
      (invocations opener pos' passages).map (·.keys) := by
  induction passages generalizing pos pos' with
  | nil => rfl
  | cons passage rest ih =>
    have hkeys (n : Nat) :
        f (pos + passage.gap.length + (marker opener).length + n) =
          pos' + passage.gap.length + (marker opener).length + n := by
      simpa only [Nat.add_assoc] using hf (passage.gap.length + ((marker opener).length + n))
    have hrest (n : Nat) : f (pos + (passage.text opener).length + n) =
        pos' + (passage.text opener).length + n := by
      simpa only [Nat.add_assoc] using hf ((passage.text opener).length + n)
    rw [invocations, invocations, List.map_cons, List.map_cons, ih hrest]
    rw [Passage.invocation, Passage.invocation, Passage.keys, Passage.keys,
      ArgumentList.map_relocate_keys hkeys]

/-! ## Sites -/

/-- A source without one of its arguments: the passages before and after the one that it belongs
to, the text before that invocation, and the arguments before and after it. -/
structure Site where
  first : List Passage
  gap : Text
  before : ArgumentList
  after : ArgumentList
  later : List Passage
  tail : Text

namespace Site

/-- The source with an argument at the site. -/
def fill (site : Site) (arg : Argument Token) : Source :=
  ⟨site.first ++ ⟨site.gap, site.before ++ arg :: site.after⟩ :: site.later, site.tail⟩

variable (opener : Text)

/-- The text before the site. -/
def textBefore (site : Site) : Text :=
  passagesText opener site.first ++ site.gap ++ marker opener ++ site.before.leading

/-- The text after the site. -/
def textAfter (site : Site) : Text :=
  closer site.after :: site.after.text ++ passagesText opener site.later ++ site.tail

/-- The layers before that of the site. -/
def layersBefore (site : Site) : List (List Key) :=
  (invocations opener 0 site.first).map (·.keys)

/-- The keys before the site in its layer. -/
def keysBefore (site : Site) : List Key :=
  site.before.keys ((passagesText opener site.first).length + site.gap.length +
    (marker opener).length)

/-- The keys after the site in its layer, if the text after it begins at an offset. -/
def keysAfter (site : Site) (pos : Nat) : List Key :=
  site.after.keys (pos + 1)

/-- The layers after that of the site, if the text after it begins at an offset. -/
def layersAfter (site : Site) (pos : Nat) : List (List Key) :=
  (invocations opener (pos + 1 + site.after.text.length) site.later).map (·.keys)

/-- The argument stands between the text before and after the site. -/
theorem text_fill (site : Site) (arg : Argument Token) :
    (site.fill arg).text opener = site.textBefore opener ++ arg.text ++ site.textAfter opener := by
  simp [Source.text, fill, Passage.text, textBefore, textAfter,
    ArgumentList.text_append site.before (List.cons_ne_nil arg site.after)]

@[simp] theorem length_layersBefore (site : Site) :
    (site.layersBefore opener).length = site.first.length := by
  simp [layersBefore]

@[simp] theorem length_keysBefore (site : Site) :
    (site.keysBefore opener).length = site.before.length := by
  simp [keysBefore]

/-- The key of the argument stands between the keys before and after the site. -/
theorem layers_fill (site : Site) (arg : Argument Token) :
    ((site.fill arg).outline opener).layers =
      site.layersBefore opener ++
        (site.keysBefore opener ++
          arg.token.key ((site.textBefore opener).length + arg.before.length) ::
          site.keysAfter ((site.textBefore opener).length + arg.text.length)) ::
        site.layersAfter opener ((site.textBefore opener).length + arg.text.length) := by
  -- The offsets at which the argument begins and the later passages begin.
  have hbefore : (site.textBefore opener).length =
      (passagesText opener site.first).length + site.gap.length + (marker opener).length +
        site.before.leading.length := by
    simp [textBefore, Nat.add_assoc]
  have hafter : 0 + (passagesText opener site.first).length +
      (Passage.text opener ⟨site.gap, site.before ++ arg :: site.after⟩).length =
      (site.textBefore opener).length + arg.text.length + 1 + site.after.text.length := by
    rw [hbefore, Passage.text, ArgumentList.text_append _ (List.cons_ne_nil arg site.after),
      ArgumentList.text_cons]
    simp only [List.length_append, List.length_cons]
    omega
  rw [Source.outline, fill, invocations_append, invocations, List.map_append, List.map_cons,
    hafter, Passage.invocation, Passage.keys, ArgumentList.keys_append, ArgumentList.keys_cons,
    Nat.zero_add, ← hbefore]
  rfl

/-- The outline ends with the passages, before the tail. -/
theorem stop_fill (site : Site) (arg : Argument Token) :
    ((site.fill arg).outline opener).stop = (site.textBefore opener).length + arg.text.length +
      (1 + site.after.text.length + (passagesText opener site.later).length) := by
  simp only [Source.outline, fill, passagesText_append, passagesText_cons, Passage.text,
    textBefore, ArgumentList.text_append site.before (List.cons_ne_nil arg site.after),
    ArgumentList.text_cons, List.length_append, List.length_cons]
  omega

variable {opener : Text} {site : Site} {old new : Argument Token}

/-- The argument of a source that fits fits itself. -/
theorem Fits.arg [Machine] {size : Nat} (h : (site.fill old).Fits opener size) : old.Fits := by
  have hlayer := h.passages ⟨site.gap, site.before ++ old :: site.after⟩ (by simp [Site.fill])
  exact (ArgumentList.fit_iff _).mp hlayer.args old (by simp)

/-- An argument that fits may be put in the place of another one. -/
theorem Fits.fill [Machine] {size : Nat} (h : (site.fill old).Fits opener size) (hnew : new.Fits)
    (hdepth : (new.token.key 0).depth ≤ nestingLimit) : (site.fill new).Fits opener size := by
  -- Only the layer of the site changes, and in it only the argument.
  have hlayer := h.passages ⟨site.gap, site.before ++ old :: site.after⟩ (by simp [Site.fill])
  have hpassages (passage : Passage) (hmem : passage ∈ site.first ∨ passage ∈ site.later) :
      passage ∈ (site.fill old).passages := by
    rcases hmem with hmem | hmem <;> simp [Site.fill, hmem]
  have hnewLayer : Passage.Fits opener ⟨site.gap, site.before ++ new :: site.after⟩ := by
    refine ⟨hlayer.gap, by simp, ?_, ?_⟩
    · have hargs := (ArgumentList.fit_iff _).mp hlayer.args
      apply (ArgumentList.fit_iff _).mpr
      intro arg hmem
      simp only [List.mem_append, List.mem_cons] at hmem hargs
      rcases hmem with hmem | rfl | hmem
      · exact hargs arg (.inl hmem)
      · exact hnew
      · exact hargs arg (.inr (.inr hmem))
    · -- The depth of keys does not depend on where the argument leaves them.
      have hold := hlayer.depth
      simp only [ArgumentList.keys_append, ArgumentList.keys_cons, Node.depthAll_append,
        Node.depthAll, Nat.max_le] at hold ⊢
      rw [ArgumentList.depthAll_keys site.after _ 0] at hold
      rw [Token.depth_key new.token _ 0, ArgumentList.depthAll_keys site.after _ 0]
      exact ⟨hold.1, hdepth, hold.2.2⟩
  refine ⟨by simp [Site.fill], ?_, ?_, h.tail⟩
  · intro passage hmem
    simp only [Site.fill, List.mem_append, List.mem_cons] at hmem
    rcases hmem with hmem | rfl | hmem
    · exact h.passages passage (hpassages passage (.inl hmem))
    · exact hnewLayer
    · exact h.passages passage (hpassages passage (.inr hmem))
  · intro passage hmem
    simp only [Site.fill, List.mem_append, List.mem_cons] at hmem
    rcases hmem with hmem | rfl | hmem
    · exact h.size passage (hpassages passage (.inl hmem))
    · rw [← h.size ⟨site.gap, site.before ++ old :: site.after⟩ (by simp [Site.fill])]
      simp
    · exact h.size passage (hpassages passage (.inr hmem))

/-! ## The key at the site -/

/-- A key in the layer of the site. -/
private theorem key?_fill_layer (opener : Text) (site : Site) (arg : Argument Token) (k : Nat) :
    ((site.fill arg).outline opener).key? site.first.length k =
      (site.keysBefore opener ++
        arg.token.key ((site.textBefore opener).length + arg.before.length) ::
        site.keysAfter ((site.textBefore opener).length + arg.text.length))[k]? := by
  rw [Outline.key?_natCast, layers_fill, List.getElem?_append_right (by simp),
    length_layersBefore, Nat.sub_self, List.getElem?_cons_zero, Option.bind_some]

/-- The key at the site. -/
theorem key?_fill (opener : Text) (site : Site) (arg : Argument Token) :
    ((site.fill arg).outline opener).key? site.first.length site.before.length =
      some (arg.token.key ((site.textBefore opener).length + arg.before.length)) := by
  rw [key?_fill_layer, List.getElem?_append_right (by simp), length_keysBefore, Nat.sub_self,
    List.getElem?_cons_zero]

/-! ## Other keys -/

/-- What is put at the site does not change the number of keys in any layer. -/
theorem map_length_layers_fill (opener : Text) (site : Site) (old new : Argument Token) :
    ((site.fill new).outline opener).layers.map List.length =
      ((site.fill old).outline opener).layers.map List.length := by
  simp [Source.map_length_layers, fill]

private theorem stop_le_of_mem_layersBefore {keys : List Key} {node : Key}
    (hkeys : keys ∈ site.layersBefore opener) (hnode : node ∈ keys) :
    node.stop ≤ (site.textBefore opener).length := by
  obtain ⟨found, hfound, rfl⟩ := List.mem_map.mp hkeys
  have hstop := stop_le_of_mem_invocations hfound hnode
  simp only [textBefore, List.length_append]
  omega

private theorem stop_le_of_mem_keysBefore {node : Key} (h : node ∈ site.keysBefore opener) :
    node.stop ≤ (site.textBefore opener).length := by
  have hstop := ArgumentList.stop_le_of_mem_keys h
  simpa only [textBefore, List.length_append, Nat.add_assoc] using hstop

private theorem le_offset_of_mem_keysAfter {pos : Nat} {node : Key}
    (h : node ∈ site.keysAfter pos) : pos ≤ node.offset :=
  Nat.le_of_succ_le (ArgumentList.le_offset_of_mem_keys h)

private theorem le_offset_of_mem_layersAfter {pos : Nat} {keys : List Key} {node : Key}
    (hkeys : keys ∈ site.layersAfter opener pos) (hnode : node ∈ keys) : pos ≤ node.offset := by
  obtain ⟨found, hfound, rfl⟩ := List.mem_map.mp hkeys
  have := le_offset_of_mem_invocations hfound hnode
  omega

/-- The keys after the site move with the text after it. -/
private theorem map_shift_keysAfter (site : Site) (pos pos' : Nat) :
    (site.keysAfter pos).map (Node.shift pos pos') = site.keysAfter pos' :=
  ArgumentList.map_relocate_keys (fun n => by omega) site.after

/-- The layers after the site move with the text after it. -/
private theorem map_shift_layersAfter (opener : Text) (site : Site) (pos pos' : Nat) :
    (site.layersAfter opener pos).map (List.map (Node.shift pos pos')) =
      site.layersAfter opener pos' := by
  rw [layersAfter, List.map_map]
  exact map_relocate_invocations (fun n => by omega) site.later

/-- A key in a layer before that of the site. -/
private theorem key?_fill_first (arg : Argument Token) {l : Nat} (k : Nat)
    (hl : l < site.first.length) :
    ((site.fill arg).outline opener).key? l k = (site.layersBefore opener)[l]?.bind (·[k]?) := by
  rw [Outline.key?_natCast, layers_fill, List.getElem?_append_left (by simpa using hl)]

/-- A key before the site in its layer. -/
private theorem key?_fill_before (arg : Argument Token) {k : Nat} (hk : k < site.before.length) :
    ((site.fill arg).outline opener).key? site.first.length k = (site.keysBefore opener)[k]? := by
  rw [key?_fill_layer, List.getElem?_append_left (by simpa using hk)]

/-- A key after the site in its layer. -/
private theorem key?_fill_after (arg : Argument Token) (n : Nat) :
    ((site.fill arg).outline opener).key? site.first.length
        ((site.before.length + 1 + n : Nat) : Int) =
      (site.keysAfter ((site.textBefore opener).length + arg.text.length))[n]? := by
  rw [key?_fill_layer, List.getElem?_append_right (by simp; omega), length_keysBefore,
    Nat.add_assoc, Nat.add_sub_cancel_left, Nat.add_comm 1 n, List.getElem?_cons_succ]

/-- A key in a layer after that of the site. -/
private theorem key?_fill_later (arg : Argument Token) (n k : Nat) :
    ((site.fill arg).outline opener).key? ((site.first.length + 1 + n : Nat) : Int) k =
      (site.layersAfter opener
        ((site.textBefore opener).length + arg.text.length))[n]?.bind (·[k]?) := by
  rw [Outline.key?_natCast, layers_fill, List.getElem?_append_right (by simp; omega),
    length_layersBefore, Nat.add_assoc, Nat.add_sub_cancel_left, Nat.add_comm 1 n,
    List.getElem?_cons_succ]

/-- Any other key lies before the site, and it stays when the argument is replaced, or it lies
after the site, and it moves by as much as the text gets longer. -/
theorem key?_fill_of_ne {layer key : Int} {node : Key} (new : Argument Token)
    (h : ((site.fill old).outline opener).key? layer key = some node)
    (hne : ¬ (layer = site.first.length ∧ key = site.before.length)) :
    node.stop ≤ (site.textBefore opener).length ∧
        ((site.fill new).outline opener).key? layer key = some node ∨
      (site.textBefore opener).length + old.text.length ≤ node.offset ∧
        ((site.fill new).outline opener).key? layer key =
          some (node.shift ((site.textBefore opener).length + old.text.length)
            ((site.textBefore opener).length + new.text.length)) := by
  obtain ⟨l, k, rfl, rfl⟩ := Outline.exists_nat_of_key? h
  rcases Nat.lt_trichotomy l site.first.length with hl | rfl | hl
  · -- A layer before that of the site.
    rw [key?_fill_first old k hl] at h
    obtain ⟨keys, hkeys, hnode⟩ := Option.bind_eq_some_iff.mp h
    refine .inl ⟨stop_le_of_mem_layersBefore (List.mem_of_getElem? hkeys)
      (List.mem_of_getElem? hnode), ?_⟩
    rw [key?_fill_first new k hl, h]
  · rcases Nat.lt_trichotomy k site.before.length with hk | rfl | hk
    · rw [key?_fill_before old hk] at h
      refine .inl ⟨stop_le_of_mem_keysBefore (List.mem_of_getElem? h), ?_⟩
      rw [key?_fill_before new hk, h]
    · exact absurd ⟨rfl, rfl⟩ hne
    · obtain ⟨n, rfl⟩ := Nat.exists_eq_add_of_lt hk
      rw [Nat.add_right_comm] at h ⊢
      rw [key?_fill_after] at h
      refine .inr ⟨le_offset_of_mem_keysAfter (List.mem_of_getElem? h), ?_⟩
      rw [key?_fill_after, ← map_shift_keysAfter, List.getElem?_map, h]
      rfl
  · -- A layer after that of the site.
    obtain ⟨n, rfl⟩ := Nat.exists_eq_add_of_lt hl
    rw [Nat.add_right_comm] at h ⊢
    rw [key?_fill_later] at h
    obtain ⟨keys, hkeys, hnode⟩ := Option.bind_eq_some_iff.mp h
    refine .inr ⟨le_offset_of_mem_layersAfter (List.mem_of_getElem? hkeys)
      (List.mem_of_getElem? hnode), ?_⟩
    rw [key?_fill_later, ← map_shift_layersAfter, List.getElem?_map, hkeys, Option.map_some,
      Option.bind_some, List.getElem?_map, hnode]
    rfl

end Site

/-- A list splits at any of its elements. -/
private theorem exists_split {α : Type} {xs : List α} {n : Nat} (h : n < xs.length) :
    ∃ before x after, xs = before ++ x :: after ∧ before.length = n :=
  ⟨xs.take n, xs[n], xs.drop (n + 1), by rw [← List.drop_eq_getElem_cons h, List.take_append_drop],
    List.length_take_of_le (Nat.le_of_lt h)⟩

/-- Every key of a source has a site. -/
theorem Source.exists_site {opener : Text} {source : Source} {layer key : Int} {node : Key}
    (h : (source.outline opener).key? layer key = some node) :
    ∃ (site : Site) (arg : Argument Token), source = site.fill arg ∧
      layer = site.first.length ∧ key = site.before.length ∧
      node = arg.token.key ((site.textBefore opener).length + arg.before.length) := by
  obtain ⟨l, k, rfl, rfl⟩ := Outline.exists_nat_of_key? h
  have hfound := h
  rw [Outline.key?_natCast] at hfound
  obtain ⟨keys, hkeys, hnode⟩ := Option.bind_eq_some_iff.mp hfound
  -- There are as many passages as layers, and as many arguments as keys.
  have hsizes := congrArg (·[l]?) (source.map_length_layers opener)
  simp only [List.getElem?_map, hkeys, Option.map_some] at hsizes
  obtain ⟨passage, hpassage, hargs⟩ := Option.map_eq_some_iff.mp hsizes.symm
  obtain ⟨hl, -⟩ := List.getElem?_eq_some_iff.mp hpassage
  obtain ⟨hk, -⟩ := List.getElem?_eq_some_iff.mp hnode
  obtain ⟨passages, tail⟩ := source
  obtain ⟨first, passage', later, rfl, rfl⟩ := exists_split hl
  rw [List.getElem?_append_right (Nat.le_refl _), Nat.sub_self, List.getElem?_cons_zero] at hpassage
  obtain rfl := Option.some.inj hpassage
  rw [← hargs] at hk
  obtain ⟨gap, args⟩ := passage'
  obtain ⟨before, arg, after, rfl, rfl⟩ := exists_split hk
  let site : Site := ⟨first, gap, before, after, later, tail⟩
  have hsite := Site.key?_fill opener site arg
  exact ⟨site, arg, rfl, rfl, rfl, Option.some.inj (h.symm.trans hsite)⟩

/-- A key that is found spans its characters. -/
theorem Outline.spans_of_key? [Machine] {text : Text} {keyCount : Option Int} {opener : Text}
    {outline : Outline} {layer key : Int} {node : Key}
    (hparse : parse text keyCount opener = .ok outline)
    (hkey : outline.key? layer key = some node) : node.Spans text := by
  obtain ⟨source, size, -, -, rfl, rfl⟩ := (parse_eq_ok_iff ..).mp hparse
  obtain ⟨site, arg, rfl, rfl, rfl, rfl⟩ := Source.exists_site hkey
  have hsplit : (site.fill arg).text opener =
      (site.textBefore opener ++ arg.before) ++ arg.token.text ++
        (arg.after ++ site.textAfter opener) := by
    simp [Site.text_fill, Argument.text]
  have hslice := Text.slice_middle (site.textBefore opener ++ arg.before) arg.token.text
    (arg.after ++ site.textAfter opener)
  rw [← hsplit, List.length_append] at hslice
  rw [Node.Spans, Token.offset_key, Token.stop_key, Token.content_key, hslice, hsplit]
  refine ⟨Nat.le_add_right _ _, ?_, rfl⟩
  simp only [List.length_append]
  omega

end Keymap
