import Keymap.Command.Arguments
import Keymap.Command.Tree
import Keymap.Proofs.AdditionFault
import Keymap.Proofs.Bytes
import Keymap.Proofs.Delivery
import Keymap.Proofs.Site
import Keymap.Text.Plain

/-!
# Byte-exact edits

A command that edits a file changes the bytes of one key, or adds those of one layer, and leaves all
other bytes alone, whatever they encode. On a lawful disk the file that the result goes to holds
exactly these bytes. The output receives the text that they encode as the echo shows it: if the echo
leaves out control sequences, one anywhere in the source is lost.

## Key results

- `edit_bytes` — which bytes an edit leaves, what its target receives, and when it warns
- `setKey_drops_sequences` — an edit that is shown without a control sequence of the source
-/

namespace Keymap

/-! ## New layers -/

/-- What is added to a text for a layer: a separator, a label with its number, and the opener with
equal keys. -/
def layerText (opener placeholder : Text) (number keyCount : Nat) : Text :=
  ',' :: '\n' :: ' ' :: '[' :: (Text.ofNat number ++ "] = ".toList ++ marker opener ++
    [','].intercalate (List.replicate keyCount placeholder) ++ [')'])

section

variable [Machine]

/-- The standard label of a layer is its number in brackets. -/
theorem fill_standard (n : Int) :
    fill n Template.standard.labelPattern = .ok ('[' :: Text.ofInt n ++ "] = ".toList) := by
  have hpattern : Pattern.ofText Template.standard.labelPattern =
      ⟨[.literal '[', .field numberName none [], .literal ']', .literal ' ', .literal '=',
        .literal ' '], none⟩ := by rfl
  have hfield : Piece.fill n (fillTo n 1) (.field numberName none []) = .ok (Text.ofInt n) := by
    rfl
  have hliteral (c : Char) : Piece.fill n (fillTo n 1) (.literal c) = .ok [c] := rfl
  rw [fill, fillTo, hpattern]
  simp only [List.mapM_cons, List.mapM_nil, hfield, hliteral]
  rfl

/-- What is added to a text for a request. -/
theorem Settings.addition_templateFor (settings : Settings) (placeholder : Option Text)
    (outline : Outline) :
    (settings.templateFor placeholder).addition fill outline =
      .ok (layerText settings.opener (settings.placeholderFor placeholder) outline.layerCount
        outline.keyCount) := by
  have hlabel : fill outline.layerCount (settings.templateFor placeholder).labelPattern = _ :=
    fill_standard outline.layerCount
  rw [Template.addition, Template.write_of_label outline.keyCount hlabel]
  show Except.ok _ = Except.ok _
  simp [layerText, Settings.templateFor, Settings.template, Template.keys, Template.standard,
    Text.ofInt]

/-- Adding a layer to a text that parses extends the text, if it has success. -/
theorem addLayer_eq_extend {renderer : Renderer} {text addition edited : Text}
    {template : Template} {checked : Bool} {outline : Outline}
    (hparse : parse text none template.opener = .ok outline)
    (haddition : template.addition renderer outline = .ok addition)
    (h : addLayer renderer text template checked = .ok edited) :
    edited = outline.extend text addition := by
  simp only [addLayer, hparse, haddition] at h
  split at h
  · split at h
    · cases h
    · exact (Except.ok.inj h).symm
  · exact (Except.ok.inj h).symm

/-- Adding a layer leaves a text as it is exactly if the text does not parse. -/
theorem addLayer_eq_self_iff {settings : Settings} {placeholder : Option Text} {checked : Bool}
    {text : Text} : addLayer fill text (settings.templateFor placeholder) checked = .ok text ↔
      ∃ e, parse text none settings.opener = .error e := by
  constructor
  · intro h
    exact (eq_text_iff_of_addLayer h).mp rfl
  · rintro ⟨e, hparse⟩
    exact addLayer_of_error fill checked hparse

/-! ## The bytes of an edit -/

namespace Request

/-- Whether a layer is asked for. -/
def addsLayer : Request → Bool
  | .addLayer .. => true
  | _ => false

/-- The bytes that an edit leaves of those of a text. -/
inductive Leaves (settings : Settings) (bytes : List UInt8) (text : Text) :
    Request → List UInt8 → Prop
  /-- No bytes change if there is no such key. -/
  | keyMissing {source value : Text} {layer key : Int} {keyCount : Option Int} {target : Target}
      {outline : Outline} :
    parse text (keyCount <|> settings.keyCount) settings.opener = .ok outline →
    outline.key? layer key = none →
    Leaves settings bytes text (.setKey source layer key value keyCount target) bytes
  /-- The bytes of a key are replaced by those of its value. -/
  | keySet {source value : Text} {layer key : Int} {keyCount : Option Int} {target : Target}
      {outline : Outline} {node : Key} :
    parse text (keyCount <|> settings.keyCount) settings.opener = .ok outline →
    outline.key? layer key = some node →
    Leaves settings bytes text (.setKey source layer key value keyCount target)
      (bytes.take (Utf8.position text node.offset) ++ Utf8.encode value ++
        bytes.drop (Utf8.position text node.stop))
  /-- No bytes change if the text does not parse. -/
  | noLayer {source : Text} {placeholder : Option Text} {validate : Option Bool} {target : Target}
      {e : SyntaxError} :
    parse text none settings.opener = .error e →
    Leaves settings bytes text (.addLayer source placeholder validate target) bytes
  /-- The bytes of a new layer stand behind those of the others. An empty placeholder is none. -/
  | layerAdded {source : Text} {placeholder : Option Text} {validate : Option Bool}
      {target : Target} {outline : Outline} :
    parse text none settings.opener = .ok outline →
    Leaves settings bytes text (.addLayer source placeholder validate target)
      (bytes.take (Utf8.position text outline.stop) ++
        Utf8.encode (layerText settings.opener (settings.placeholderFor placeholder)
          outline.layerCount outline.keyCount) ++
        bytes.drop (Utf8.position text outline.stop))

variable {settings : Settings} {text edited : Text}

/-- Setting a key leaves these bytes. -/
theorem leaves_of_setKey {layer key : Int} {value : Text} {keyCount : Option Int}
    (source : Text) (target : Target)
    (h : Keymap.setKey text layer key value (keyCount <|> settings.keyCount) settings.opener =
      .ok edited) :
    Leaves settings (Utf8.encode text) text (.setKey source layer key value keyCount target)
      (Utf8.encode edited) := by
  cases hparse : parse text (keyCount <|> settings.keyCount) settings.opener with
  | error e =>
    rw [Keymap.setKey, hparse] at h
    cases h
  | ok outline =>
    cases hkey : outline.key? layer key with
    | none =>
      rw [setKey_missing value hparse hkey] at h
      obtain rfl := Except.ok.inj h
      exact .keyMissing hparse hkey
    | some node =>
      have hspans := Outline.spans_of_key? hparse hkey
      -- The key is replaced where its bytes stand, from its start to its end.
      have hstop : node.offset + node.content.length = node.stop := by
        rw [Node.length_content_of_spans hspans, Nat.add_sub_cancel' hspans.1]
      obtain ⟨rfl, -⟩ := (setKey_eq_ok_iff value edited hparse hkey).mp h
      rw [Node.replaceIn, hstop, Utf8.encode_splice]
      exact .keySet hparse hkey

/-- Adding a layer leaves these bytes. -/
theorem leaves_of_addLayer {placeholder : Option Text} {checked : Bool} (source : Text)
    (validate : Option Bool) (target : Target)
    (h : Keymap.addLayer fill text (settings.templateFor placeholder) checked = .ok edited) :
    Leaves settings (Utf8.encode text) text (.addLayer source placeholder validate target)
      (Utf8.encode edited) := by
  cases hparse : parse text none settings.opener with
  | error e =>
    rw [addLayer_of_error fill checked hparse] at h
    obtain rfl := Except.ok.inj h
    exact .noLayer hparse
  | ok outline =>
    obtain rfl := addLayer_eq_extend hparse (settings.addition_templateFor placeholder outline) h
    rw [Outline.extend, Utf8.encode_splice]
    exact .layerAdded hparse

end Request

end

/-! ## The target of an edit -/

section

variable {World Name : Type} {disk : Disk (StateM World)} {files : Files World Name}
  {before after : World} {source : Text} {target : Target} {transcript : Transcript}

/-- Bytes that reach their only target. -/
structure Reaches (disk : Disk (StateM World)) (files : Files World Name) (before : World)
    (source : Text) (bytes : List UInt8) (target : Target) (transcript : Transcript)
    (after : World) : Prop where
  single : target.output = none ∨ target.inPlace = false
  /-- Without a file the world stays, and the echo shows the text that the bytes encode. -/
  shown : target.path? source = none → after = before ∧
    ∃ text, Utf8.encode text = bytes ∧ ∀ echo, transcript.shownOutput echo = echo text
  /-- If the bytes have no escape, any echo shows them that leaves texts without escapes alone. -/
  exact : target.path? source = none → Utf8.escapeByte ∉ bytes →
    ∀ echo : Text → Text, (∀ text, escape ∉ text → echo text = text) →
    Utf8.encode (transcript.shownOutput echo) = bytes
  /-- A file is written, and nothing is shown. -/
  written : ∀ path, target.path? source = some path →
    (disk.write path bytes).run before = (.ok (), after) ∧
      ∀ echo, transcript.shownOutput echo = []
  /-- The file holds the bytes then. -/
  held : ∀ path name, target.path? source = some path → files.name? before path = some name →
    files.bytes? after name = some bytes
  /-- All other files hold what they did. -/
  others : ∀ path name, target.path? source = some path → files.name? before path ≠ some name →
    files.bytes? after name = files.bytes? before name

/-- A text that is delivered with success reaches its target. -/
theorem Delivery.reaches {text : Text} {notices : List Notice} (hlawful : disk.Lawful files)
    (h : Delivery disk before source text notices target transcript after)
    (hexit : transcript.exit = .success) :
    Reaches disk files before source (Utf8.encode text) target transcript after := by
  cases h with
  | twoTargets path => exact absurd hexit (Trouble.exitStatus_ne_success .twoTargets)
  | output =>
    -- There is no file, so all that is said of one holds vacuously.
    have hnone (path : Text) : Target.path? source ⟨none, false⟩ ≠ some path := by rintro ⟨⟩
    have hshown (echo : Text → Text) :
        (Transcript.done [text] notices).shownOutput echo = echo text :=
      List.append_nil _
    exact {
      single := .inl rfl
      shown := fun _ => ⟨rfl, text, rfl, hshown⟩
      exact := fun _ hescape echo hecho => by
        rw [hshown, hecho text (Utf8.escape_not_mem hescape)]
      written := fun path hpath => absurd hpath (hnone path)
      held := fun path _ hpath => absurd hpath (hnone path)
      others := fun path _ hpath => absurd hpath (hnone path) }
  | @written _ path _ hpath hwrite =>
    -- Any path that the target has is the one that was written.
    have hsame {other : Text} (hother : target.path? source = some other) : other = path :=
      Option.some.inj (hother.symm.trans hpath)
    exact {
      single := Target.single_of_path? hpath
      shown := fun hnone => by cases hpath.symm.trans hnone
      exact := fun hnone => by cases hpath.symm.trans hnone
      written := fun other hother => ⟨hsame hother ▸ hwrite, fun _ => rfl⟩
      held := fun other _ hother => hsame hother ▸ hlawful.bytes_write hwrite
      others := fun other _ hother => hsame hother ▸ hlawful.bytes_write_ne hwrite }
  | @notWritten _ _ fault _ _ =>
    exact absurd hexit (Trouble.exitStatus_ne_success (.file fault))

/-- An edit with success has a result, which reaches its target. -/
theorem Editing.reaches {result : Except Trouble Text} {notices : List Notice}
    (hlawful : disk.Lawful files)
    (h : Editing disk before source target result notices transcript after)
    (hexit : transcript.exit = .success) :
    ∃ edited, result = .ok edited ∧
      Reaches disk files before source (Utf8.encode edited) target transcript after := by
  cases h with
  | @failed trouble _ => exact absurd hexit trouble.exitStatus_ne_success
  | delivered hresult hdelivery => exact ⟨_, hresult, hdelivery.reaches hlawful hexit⟩

/-! ## Requests -/

variable [Machine]

/-- What is done for a request, once the text of its source is known. -/
theorem perform_bytes {session : Session (StateM World)} {text : Text} {request : Request}
    (hlawful : session.disk.Lawful files)
    (hrun : (session.perform text request).run before = (transcript, after)) :
    (∀ target, request.target? = some target → transcript.exit = .success →
      ∃ edited, request.Leaves session.settings (Utf8.encode text) text edited ∧
        Reaches session.disk files before request.source edited target transcript after) ∧
      ∀ path, .noLayerAdded path ∈ transcript.notices ↔
        request.addsLayer ∧ path = normalPath request.source ∧
          ∃ e, parse text none session.settings.opener = .error e := by
  cases request with
  | showLayers source keyCount trees =>
    obtain ⟨rfl, rfl⟩ := Prod.mk.inj hrun
    refine ⟨?_, fun path => iff_of_false (Session.not_mem_showLayers _ _ _ _ path) ?_⟩
    · -- A list of layers has no target, and adds no layer.
      rintro target ⟨⟩
    · rintro ⟨⟨⟩, -⟩
  | setKey source layer key value keyCount target =>
    obtain ⟨notices, hwarning, hediting⟩ := editing_of_setKey hrun
    refine ⟨fun _ htarget hexit => ?_, fun path => ?_⟩
    · obtain rfl := Option.some.inj htarget
      obtain ⟨edited, hresult, hreaches⟩ := hediting.reaches hlawful hexit
      have hleaves := Request.leaves_of_setKey source target
        ((State.mapError_eq_ok_iff ..).mp hresult)
      exact ⟨_, hleaves, hreaches⟩
    · rw [hediting.warns_iff]
      -- Setting a key never warns.
      refine iff_of_false (hwarning path) ?_
      rintro ⟨⟨⟩, -⟩
  | addLayer source placeholder validate target =>
    obtain ⟨notices, checked, hwarning, hediting⟩ := editing_of_addLayer hrun
    refine ⟨fun _ htarget hexit => ?_, fun path => ?_⟩
    · obtain rfl := Option.some.inj htarget
      obtain ⟨edited, hresult, hreaches⟩ := hediting.reaches hlawful hexit
      have hleaves := Request.leaves_of_addLayer source validate target
        ((State.mapError_eq_ok_iff ..).mp hresult)
      exact ⟨_, hleaves, hreaches⟩
    · -- The text stayed as it was exactly if it did not parse.
      rw [hediting.warns_iff, hwarning, addLayer_eq_self_iff]
      exact (and_iff_right rfl).symm

/-- What a request comes to on a lawful disk, if its source holds the bytes of a text. If it has
edited with success, the bytes that it leaves of them have reached its target: a file holds them, or
the output shows what they encode as the echo will have it. It warns exactly if a layer was to be
added to a text that does not parse. -/
theorem edit_bytes {session : Session (StateM World)} {request : Request} {bytes : List UInt8}
    {text : Text} (hlawful : session.disk.Lawful files)
    (hread : ((session.disk.read (normalPath request.source)).run before).1 = .ok bytes)
    (hdecode : Utf8.decode bytes = .ok text)
    (hrun : (session.run request).run before = (transcript, after)) :
    (∀ target, request.target? = some target → transcript.exit = .success →
      ∃ edited, request.Leaves session.settings bytes text edited ∧
        Reaches session.disk files before request.source edited target transcript after) ∧
      ∀ path, .noLayerAdded path ∈ transcript.notices ↔
        request.addsLayer ∧ path = normalPath request.source ∧
          ∃ e, parse text none session.settings.opener = .error e := by
  obtain rfl := Utf8.decode_eq_ok_iff.mp hdecode
  have hidle := hlawful.idle_read (normalPath request.source) before
  rw [Session.run_of_read (Prod.ext hread hidle) hdecode] at hrun
  exact perform_bytes hlawful hrun

end

open Usual

/-- Setting a key between characters of several bytes, in place, by a path from the root. -/
theorem edit_bytes_in_place :
    let request : Request := .setKey "/k".toList 0 0 "ß".toList none ⟨none, true⟩
    let session : Session (StateM Tree) := ⟨Tree.disk, { Settings.standard with opener := ['K'] },
      false⟩
    let tree (text : Text) : Tree := ⟨[(["k".toList], .file (Utf8.encode text))], [], 4095, 255⟩
    (session.run request).run (tree "/*é*/K(A)\r\n".toList) =
        (.done [] [.wrote "/k".toList], tree "/*é*/K(ß)\r\n".toList) ∧
      ∃ edited, request.Leaves session.settings (Utf8.encode "/*é*/K(A)\r\n".toList)
          "/*é*/K(A)\r\n".toList edited ∧
        Reaches Tree.disk Tree.files (tree "/*é*/K(A)\r\n".toList) "/k".toList edited ⟨none, true⟩
          (.done [] [.wrote "/k".toList]) (tree "/*é*/K(ß)\r\n".toList) := by
  intro request session tree
  have hrun : (session.run request).run (tree "/*é*/K(A)\r\n".toList) =
      (.done [] [.wrote "/k".toList], tree "/*é*/K(ß)\r\n".toList) := by
    change @Eq (Transcript × Tree) _ _
    decide +kernel
  have hdecode := Utf8.decode_encode "/*é*/K(A)\r\n".toList
  exact ⟨hrun, (edit_bytes Tree.lawful (by decide +kernel) hdecode hrun).1 _ rfl rfl⟩

/-- Setting a key of a source with a control sequence. The bytes of the result have the sequence,
but what an echo of plain text shows has not. -/
theorem setKey_drops_sequences :
    let text := "/*\x1b[m*/K(A)".toList
    let edited := "/*\x1b[m*/K(B)".toList
    let request : Request := .setKey "/k".toList 0 0 "B".toList none ⟨none, false⟩
    let session : Session (StateM Tree) := ⟨Tree.disk, { Settings.standard with opener := ['K'] },
      false⟩
    let tree : Tree := ⟨[(["k".toList], .file (Utf8.encode text))], [], 4095, 255⟩
    (session.run request).run tree = (.done [edited] [], tree) ∧
      request.Leaves session.settings (Utf8.encode text) text (Utf8.encode edited) ∧
      Utf8.encode ((Transcript.done [edited] []).shownOutput Text.plain) ≠ Utf8.encode edited := by
  intro text edited request session tree
  have hset : setKey text 0 0 "B".toList none "K".toList = .ok edited := by decide +kernel
  have hplain : Text.plain edited = "/**/K(B)".toList := by
    -- The sequence is cut out between the opening and the closing of the comment.
    have hcut : Text.plain "\x1b[m*/K(B)".toList = "*/K(B)".toList :=
      (Text.plain_sequence (by decide)).trans (Text.plain_eq_self (by decide))
    simpa [edited, Text.plain, escape] using hcut
  refine ⟨?_, Request.leaves_of_setKey _ _ hset, ?_⟩
  · change @Eq (Transcript × Tree) _ _
    decide +kernel
  · rw [Transcript.shownOutput, Transcript.done, List.flatMap_singleton, hplain]
    decide

end Keymap
