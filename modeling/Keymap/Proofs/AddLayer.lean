import Keymap.Edit
import Keymap.Proofs.Standalone
import Keymap.Template.Pattern

/-!
# Adding a layer

A template whose placeholder is exactly a key adds one layer of placeholders to any source. What
stands between the last layer and the opener of the new one must hold no parenthesis, whatever
renderer has written it, and the keys are joined by commas with blanks around them. The source then
parses again, with its layers as they were and the new one behind them.

## Key results

- `text_row` — a repeated placeholder is written as a list of arguments
- `addLayer_of_exact` — adding a layer, and what the result parses to
-/

namespace Keymap

/-! ## Rows of placeholders -/

/-- Arguments that repeat a token, with blanks before and after the commas between them. -/
def row (token : Token) (ahead behind : Text) : Text → Nat → ArgumentList
  | before, 0 => [⟨before, token, []⟩]
  | before, n + 1 => ⟨before, token, ahead⟩ :: row token ahead behind behind n

section

variable {token : Token} {ahead behind : Text}

/-- A row is written like its token repeated, with the comma and its blanks between any two. -/
theorem text_row (token : Token) (ahead behind before : Text) (n : Nat) :
    (row token ahead behind before n).text =
      before ++ (ahead ++ ',' :: behind).intercalate (List.replicate (n + 1) token.text) ++
        [')'] := by
  induction n generalizing before with
  | zero => simp [row, Argument.text, closer]
  | succ n ih =>
    have hcloser : closer (row token ahead behind behind n) = ',' := by
      cases n <;> rfl
    rw [row, ArgumentList.text_cons, ih, hcloser, List.replicate_succ (n := n + 1),
      List.intercalate_cons_of_ne_nil (by simp)]
    simp [Argument.text]

@[simp] theorem length_row (token : Token) (ahead behind before : Text) (n : Nat) :
    (row token ahead behind before n).length = n + 1 := by
  induction n generalizing before with
  | zero => rfl
  | succ n ih => rw [row, List.length_cons, ih]

theorem token_of_mem_row {before : Text} {n : Nat} {arg : Argument Token}
    (h : arg ∈ row token ahead behind before n) : arg.token = token := by
  induction n generalizing before with
  | zero => rw [List.mem_singleton.mp h]
  | succ n ih =>
    rcases List.mem_cons.mp h with rfl | h
    · rfl
    · exact ih h

/-- A row fits if its token can stand before a delimiter and before the blanks. -/
theorem fit_row {before : Text} (hbefore : before.AllBlank) (hahead : ahead.AllBlank)
    (hbehind : behind.AllBlank) (hlast : token.Fits []) (hnext : token.Fits ahead) (n : Nat) :
    (row token ahead behind before n).Fit := by
  induction n generalizing before with
  | zero => simpa [row] using ⟨.of_allBlank hbefore, hlast, .nil⟩
  | succ n ih =>
    rw [row, ArgumentList.fit_cons]
    exact ⟨⟨.of_allBlank hbefore, hnext, .of_allBlank hahead⟩, ih hbehind⟩

/-- The keys of a row are as deep as the key of its token. -/
theorem depthAll_row [Machine] (before : Text) (n : Nat)
    (hdepth : (token.key 0).depth ≤ nestingLimit) (pos : Nat) :
    Node.depthAll ((row token ahead behind before n).keys pos) ≤ nestingLimit := by
  induction n generalizing before pos with
  | zero => simpa [row, Node.depthAll, Token.depth_key _ _ 0] using hdepth
  | succ n ih =>
    rw [row, ArgumentList.keys_cons, Node.depthAll, Nat.max_le, Token.depth_key _ _ 0]
    exact ⟨hdepth, ih _ _⟩

end

/-! ## One more passage -/

namespace Source

/-- The source with one more passage before its tail. -/
def add (source : Source) (passage : Passage) : Source :=
  ⟨source.passages ++ [passage], source.tail⟩

variable (opener : Text) (source : Source) (passage : Passage)

/-- The passage is written where the outline ends. -/
theorem text_add :
    (source.add passage).text opener =
      (source.text opener).take (source.outline opener).stop ++ passage.text opener ++
        (source.text opener).drop (source.outline opener).stop := by
  simp [text, outline, add]

/-- The layers stay, and that of the passage comes behind them. -/
theorem layers_add :
    ((source.add passage).outline opener).layers =
      (source.outline opener).layers ++
        [passage.keys opener (source.outline opener).stop] := by
  simp only [outline, add, invocations_append, List.map_append, Nat.zero_add]
  rfl

/-- The outline ends with the passage. -/
theorem stop_add :
    ((source.add passage).outline opener).stop =
      (source.outline opener).stop + (passage.text opener).length := by
  simp [outline, add]

variable {opener source passage}

/-- A source that fits may have one more passage of the same size. -/
theorem Fits.add [Machine] {size : Nat} (h : source.Fits opener size)
    (hpassage : passage.Fits opener) (hsize : passage.args.length = size) :
    (source.add passage).Fits opener size where
  passages_ne_nil := by simp [Source.add]
  passages := by
    rw [Source.add, List.forall_mem_append, List.forall_mem_singleton]
    exact ⟨h.passages, hpassage⟩
  size := by
    rw [Source.add, List.forall_mem_append, List.forall_mem_singleton]
    exact ⟨h.size, hsize⟩
  tail := h.tail

/-- A source that fits has at least one key in each layer. -/
theorem Fits.exists_size_eq_succ [Machine] {size : Nat} (h : source.Fits opener size) :
    ∃ n, size = n + 1 := by
  obtain ⟨first, later, hfirst⟩ := List.exists_cons_of_ne_nil h.passages_ne_nil
  have hmem : first ∈ source.passages := by simp [hfirst]
  obtain ⟨arg, rest, hargs⟩ := List.exists_cons_of_ne_nil (h.passages first hmem).args_ne_nil
  exact ⟨rest.length, by rw [← h.size first hmem, hargs, List.length_cons]⟩

end Source

/-! ## Adding a layer -/

/-- A token that may end a row may also stand before blanks, unless it ends with a backslash. -/
theorem Token.Fits.before_blanks {token : Token} {blanks : Text} (h : token.Fits [])
    (hblanks : blanks.AllBlank) (hend : token.text.getLast? ≠ some '\\') :
    token.Fits blanks := by
  have htrivia := Trivia.of_allBlank hblanks
  apply h.append_trivia .nil htrivia
  intro _ c hc d hd
  rw [← Bool.not_eq_true]
  intro hpair
  rcases htrivia.eq_of_isPair hd hpair with ⟨rfl, rfl⟩ | ⟨rfl, rfl⟩
  · -- A slash is no blank.
    exact nomatch hblanks '/' (List.mem_of_mem_head? hd)
  · exact hend hc

section

variable [Machine] {renderer : Renderer}

/-- Adding a layer to a source whose passages it fits. -/
theorem addLayer_source {opener : Text} {source : Source} {passage : Passage} {size : Nat}
    {template : Template} {layer : Text} (hopener : template.opener = opener)
    (hfits : source.Fits opener size) (hadd : (source.add passage).Fits opener size)
    (hwrite : template.write renderer (source.outline opener).layerCount size = .ok layer)
    (htext : template.separator ++ layer = passage.text opener) (validate : Bool) :
    addLayer renderer (source.text opener) template validate =
      .ok ((source.add passage).text opener) := by
  subst hopener
  have hparse := (parse_eq_ok_iff _ none template.opener _).mpr
    ⟨_, _, hfits, by simp, rfl, rfl⟩
  -- A second look at the result asks for as many keys as there were.
  have hcount : ∀ expected ∈ some ((source.outline template.opener).keyCount : Int),
      expected = size := by
    simp [hfits.keyCount_outline]
  have hparse' := (parse_eq_ok_iff _ (some (source.outline template.opener).keyCount : Option Int)
    template.opener _).mpr ⟨_, _, hadd, hcount, rfl, rfl⟩
  have haddition : template.addition renderer (source.outline template.opener) =
      .ok (passage.text template.opener) := by
    rw [Template.addition, hfits.keyCount_outline, hwrite, ← htext]
    rfl
  have hedited : (source.outline template.opener).extend (source.text template.opener)
      (passage.text template.opener) = (source.add passage).text template.opener := by
    rw [Outline.extend, Text.splice, Source.text_add]
  rw [addLayer, hparse]
  simp only [haddition, hedited, hparse', ite_self]

/-- Adding a layer of placeholders, with a label that any renderer writes. The new layer is written
behind the last one. With or without another look at it, the result parses to the layers that there
were and one of as many keys, each of which is the placeholder. -/
theorem addLayer_of_exact {text label ahead behind : Text} {template : Template}
    {outline : Outline} (hparse : parse text none template.opener = .ok outline)
    (hseparator : '(' ∉ template.separator)
    (hwritten : renderer outline.layerCount template.labelPattern = .ok label)
    (hlabel : '(' ∉ label) (hjoiner : template.joiner = ahead ++ ',' :: behind)
    (hahead : ahead.AllBlank) (hbehind : behind.AllBlank)
    (hexact : Exact template.opener template.placeholder)
    (hend : template.placeholder.getLast? ≠ some '\\') :
    ∃ layer edited, template.write renderer outline.layerCount outline.keyCount = .ok layer ∧
      (∀ validate, addLayer renderer text template validate = .ok (text.take outline.stop ++
        (template.separator ++ layer) ++ text.drop outline.stop)) ∧
      parse (text.take outline.stop ++ (template.separator ++ layer) ++ text.drop outline.stop)
        none template.opener = .ok edited ∧
      (∃ keys, edited.layers = outline.layers ++ [keys] ∧ keys.length = outline.keyCount ∧
        ∀ key ∈ keys, key.content = template.placeholder) ∧
      edited.stop = outline.stop + (template.separator ++ layer).length := by
  obtain ⟨source, size, hfits, -, rfl, rfl⟩ := (parse_eq_ok_iff ..).mp hparse
  obtain ⟨token, hlast, hdepth, hplaceholder⟩ := (exact_iff ..).mp hexact
  obtain ⟨n, rfl⟩ := hfits.exists_size_eq_succ
  rw [hplaceholder] at hend
  have hwrite := Template.write_of_label (n + 1) hwritten
  -- The passage that is added: the separator and the label are not read.
  let passage : Passage := ⟨template.separator ++ label, row token ahead behind [] n⟩
  have htext : template.separator ++ (label ++ marker template.opener ++ template.keys (n + 1) ++
      [')']) = passage.text template.opener := by
    simp [passage, Passage.text, text_row, Template.keys, hjoiner, hplaceholder]
  have hpassage : passage.Fits template.opener := by
    refine ⟨marker_not_within (by simp [passage, hseparator, hlabel]), ?_, ?_, ?_⟩
    · exact List.ne_nil_of_length_eq_add_one (length_row token ahead behind [] n)
    · exact fit_row Text.allBlank_nil hahead hbehind hlast
        (hlast.before_blanks hahead hend) n
    · exact depthAll_row [] n hdepth 0
  have hadd := hfits.add hpassage (length_row token ahead behind [] n)
  have hedited := addLayer_source rfl hfits hadd hwrite htext
  rw [Source.text_add] at hedited
  rw [hfits.keyCount_outline]
  refine ⟨_, (source.add passage).outline template.opener, hwrite, ?_, ?_, ?_, ?_⟩
  · rwa [htext]
  · rw [htext, ← Source.text_add]
    exact (parse_eq_ok_iff ..).mpr ⟨_, _, hadd, by simp, rfl, rfl⟩
  · refine ⟨_, Source.layers_add .., by simp [passage, Passage.keys], fun key hkey => ?_⟩
    -- The content of the key is that of some token of the row.
    have hcontent : key.content ∈ (passage.args).map (·.token.text) := by
      rw [← ArgumentList.map_content_keys]
      exact List.mem_map_of_mem hkey
    obtain ⟨arg, harg, hkeytext⟩ := List.mem_map.mp hcontent
    rw [← hkeytext, token_of_mem_row harg, hplaceholder]
  · rw [Source.stop_add, htext]

end

open Usual

/-- A layer is added to a source with something behind its last layer. -/
theorem addLayer_small :
    addLayer fill "K(A,B);".toList
        ⟨"K".toList, "-".toList, "\x7bindex\x7d:".toList, " ".toList, ", ".toList⟩ true =
      .ok "K(A,B) 1:K(-, -);".toList := by
  have hparse : parse "K(A,B);".toList none "K".toList =
      .ok ⟨[[.word "A".toList 2 3, .word "B".toList 4 5]], 6⟩ := by cbv
  have hfill : fill 1 "\x7bindex\x7d:".toList = .ok "1:".toList := by decide +kernel
  have hexact : Exact "K".toList "-".toList := ⟨.word "-".toList 2 3, 4, by cbv, rfl⟩
  have hblank : Text.AllBlank [' '] := (Text.allBlank_cons ..).mpr ⟨rfl, Text.allBlank_nil⟩
  obtain ⟨layer, edited, hwrite, hadd, -⟩ := @addLayer_of_exact _ fill _ _ [] [' ']
    ⟨"K".toList, "-".toList, "\x7bindex\x7d:".toList, " ".toList, ", ".toList⟩ _ hparse
    (by decide) hfill (by decide) (by decide) Text.allBlank_nil hblank hexact (by decide)
  have hlayer : Template.write
      ⟨"K".toList, "-".toList, "\x7bindex\x7d:".toList, " ".toList, ", ".toList⟩ fill 1 2 =
      .ok "1:K(-, -)".toList := by decide +kernel
  obtain rfl := Except.ok.inj (hlayer.symm.trans hwrite)
  exact hadd true

end Keymap
