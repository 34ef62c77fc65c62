import Keymap.Command.Arguments
import Keymap.Command.Tree
import Keymap.Proofs.Delivery
import Keymap.Proofs.Site

/-!
# Records of nothing changed

With a log, the command that sets a key records that there is no such key whenever it leaves the
text as it was. A key that is not there is one reason for that. The other one is a value that the
key holds already: writing it changes nothing, although the key exists. None of this depends on the
disk or on how the command line is read.

## Key results

- `Text.splice_eq_self_iff` — only its own characters replace a span without a change
- `setKey_eq_self_iff` — when setting a key leaves the text as it is
- `recorded_iff` — when a missing key is recorded
- `recorded_for_existing_key` — a key that exists and is recorded as missing
-/

namespace Keymap

/-! ## Texts that stay as they are -/

/-- A span is replaced without a change exactly by its own characters. -/
theorem Text.splice_eq_self_iff {text value : Text} {start stop : Nat} (h : start ≤ stop) :
    text.splice start stop value = text ↔ value = text.slice start stop := by
  have hself := splice_slice text h
  constructor
  · intro hsame
    -- Before and behind the span both texts have the same characters.
    have hboth := hsame.trans hself.symm
    rw [splice, splice, List.append_assoc, List.append_assoc] at hboth
    exact List.append_cancel_right (List.append_cancel_left hboth)
  · rintro rfl
    exact hself

/-- Replacing a key changes nothing exactly if the value is what the key holds. -/
theorem Node.replaceIn_eq_self_iff {text value : Text} {node : Key} (h : node.Spans text) :
    node.replaceIn text value = text ↔ value = node.content := by
  have hlength := Node.length_content_of_spans h
  obtain ⟨hle, -, hcontent⟩ := h
  have hend : node.offset + node.content.length = node.stop := by omega
  rw [replaceIn, hend, Text.splice_eq_self_iff hle, hcontent]

/-- An outline lacks a key: there is no such layer, or the layer has no such key. -/
def Outline.Lacks (outline : Outline) (layer key : Int) : Prop :=
  ¬ (0 ≤ layer ∧ layer < outline.layerCount) ∨
    ∃ keys, outline.layers[layer.toNat]? = some keys ∧ ¬ (0 ≤ key ∧ key < keys.length)

/-- No key is found exactly where an outline lacks one. -/
theorem Outline.key?_eq_none_iff (outline : Outline) (layer key : Int) :
    outline.key? layer key = none ↔ outline.Lacks layer key := by
  rw [key?]
  by_cases hlayer : 0 ≤ layer ∧ layer < outline.layerCount
  · have hlt : layer.toNat < outline.layers.length := by
      have hcount := hlayer.2
      rw [layerCount] at hcount
      omega
    have hkeys := List.getElem?_eq_getElem hlt
    simp only [Lacks, hkeys, hlayer, not_true, false_or, true_and, Option.some.injEq,
      exists_eq_left', Option.bind_some]
    split
    · rw [List.getElem?_eq_none_iff]
      omega
    · exact iff_of_true rfl (by omega)
  · refine iff_of_true ?_ (.inl hlayer)
    split
    · -- The layers end before this one.
      have hnone : outline.layers[layer.toNat]? = none := by
        rw [List.getElem?_eq_none_iff]
        rw [layerCount] at hlayer
        omega
      rw [hnone, Option.bind_none]
    · rfl

/-- Everything that is recorded while a text is read is of little weight. -/
theorem Reading.level_of_mem_events {reading : Reading} {event : Event}
    (h : event ∈ reading.events) : event.level = .debug := by
  obtain ⟨number, hlt, rfl⟩ := List.mem_mapIdx.mp h
  rfl

section

variable [Machine]

/-- Only a key of a text that parses is set. -/
theorem exists_outline_of_setKey {text value opener edited : Text} {layer key : Int}
    {keyCount : Option Int} (h : setKey text layer key value keyCount opener = .ok edited) :
    ∃ outline, parse text keyCount opener = .ok outline := by
  cases hparse : parse text keyCount opener with
  | error e =>
    rw [setKey, hparse] at h
    cases h
  | ok outline => exact ⟨outline, rfl⟩

/-- Setting a key leaves a text as it is exactly if the key is missing or holds the value. -/
theorem setKey_eq_self_iff {text value opener : Text} {layer key : Int} {keyCount : Option Int}
    {outline : Outline} (hparse : parse text keyCount opener = .ok outline) :
    setKey text layer key value keyCount opener = .ok text ↔
      outline.Lacks layer key ∨
        ∃ node, outline.key? layer key = some node ∧ value = node.content := by
  rw [← outline.key?_eq_none_iff]
  cases hkey : outline.key? layer key with
  | none => simp [setKey_missing value hparse hkey]
  | some node =>
    have hsame : node.replaceIn text value = text ↔ value = node.content :=
      Node.replaceIn_eq_self_iff (Outline.spans_of_key? hparse hkey)
    rw [setKey_eq_ok_iff value text hparse hkey]
    constructor
    · rintro ⟨htext, -⟩
      exact .inr ⟨node, rfl, hsame.mp htext.symm⟩
    · rintro (hnone | ⟨_, hnode, hvalue⟩)
      · cases hnone
      · obtain rfl := Option.some.inj hnode
        have htext := hsame.mpr hvalue
        exact ⟨htext.symm, outline, by rw [htext, hparse]⟩

/-! ## Records -/

/-- And so is everything that is recorded while a key is set. -/
theorem level_of_mem_setKeyEvents {text value opener : Text} {layer key : Int}
    {keyCount : Option Int} {event : Event}
    (h : event ∈ setKeyEvents text layer key value keyCount opener) : event.level = .debug := by
  simp only [setKeyEvents] at h
  rcases List.mem_append.mp h with hread | hset
  · exact Reading.level_of_mem_events hread
  · split at hset
    · cases hset
    · split at hset
      · obtain rfl := List.mem_singleton.mp hset
        rfl
      · rcases List.mem_append.mp hset with hread | hdone
        · exact Reading.level_of_mem_events hread
        · split at hdone
          · cases hdone
          · obtain rfl := List.mem_singleton.mp hdone
            rfl

end

/-! ## Transcripts -/

/-- Whether a notice of a transcript has a wording. -/
def Transcript.Says (transcript : Transcript) (words : Text) : Prop :=
  ∃ notice ∈ transcript.notices, notice.message = words

/-- A notice that does not read like a record of nothing changed: an event of little weight, a
remark on settings, or a file that was written. -/
inductive Notice.Other : Notice → Prop where
  | logged {event : Event} : event.level = .debug → Other (.logged event)
  | remarked (words : Text) : Other (.remarked (.keyCountIgnored words))
  | wrote (path : Text) : Other (.wrote path)

theorem Notice.Other.message_ne {notice : Notice} (h : notice.Other) (layer key : Int) :
    notice.message ≠ (Event.nothingChanged layer key).record := by
  cases h with
  | @logged event hlevel =>
    have hname : event.level.name = "DEBUG".toList := congrArg Level.name hlevel
    show event.level.name ++ ": ".toList ++ event.message ≠ "INFO".toList ++ ": ".toList ++ _
    simp [hname]
  | remarked words =>
    show "Ignoring invalid KMEDIT_KEY_COUNT: ".toList ++ words.quoted ≠
      "INFO".toList ++ ": ".toList ++ _
    simp
  | wrote path =>
    show "Wrote ".toList ++ path ≠ "INFO".toList ++ ": ".toList ++ _
    simp

/-- A log notices the events that it is given. -/
theorem Session.exists_of_mem_log {m : Type → Type} [Monad m] {session : Session m}
    {events : List Event} {notice : Notice} (h : notice ∈ session.log events) :
    session.verbose = true ∧ ∃ event ∈ events, notice = .logged event := by
  rw [log] at h
  split at h
  · obtain ⟨event, hevent, rfl⟩ := List.mem_map.mp h
    exact ⟨‹_›, event, hevent, rfl⟩
  · cases h

/-- What is remarked on settings reads otherwise. -/
theorem Settings.other_of_mem_remarks {environment : Environment} {notice : Notice}
    (h : notice ∈ remarks environment) : notice.Other := by
  obtain ⟨event, hevent, rfl⟩ := List.mem_map.mp h
  rw [readEvents] at hevent
  split at hevent
  · cases hevent
  · split at hevent
    · cases hevent
    · obtain rfl := List.mem_singleton.mp hevent
      exact .remarked _

/-- Remarks on settings do not say that nothing changed. -/
theorem Transcript.says_after_iff (transcript : Transcript) (environment : Environment)
    (layer key : Int) :
    (transcript.after (Settings.remarks environment)).Says
        (Event.nothingChanged layer key).record ↔
      transcript.Says (Event.nothingChanged layer key).record := by
  constructor
  · rintro ⟨notice, hmem, hwords⟩
    rcases List.mem_append.mp hmem with hremark | hmem
    · exact absurd hwords ((Settings.other_of_mem_remarks hremark).message_ne layer key)
    · exact ⟨notice, hmem, hwords⟩
  · rintro ⟨notice, hmem, hwords⟩
    exact ⟨notice, List.mem_append_right _ hmem, hwords⟩

/-! ## Setting a key -/

section

variable {World : Type} {before after : World} {source text value : Text} {layer key : Int}
  {keyCount : Option Int} {target : Target} {transcript : Transcript}

/-- A delivery with success says nothing but which file was written. -/
theorem Delivery.notices_of_success {disk : Disk (StateM World)} {notices : List Notice}
    (h : Delivery disk before source text notices target transcript after)
    (hexit : transcript.exit = .success) :
    ∃ written : List Text, transcript.notices = notices ++ written.map .wrote := by
  cases h with
  | twoTargets _ => exact absurd hexit (Trouble.exitStatus_ne_success .twoTargets)
  | output => exact ⟨[], (List.append_nil _).symm⟩
  | @written _ path _ _ _ => exact ⟨[path], rfl⟩
  | @notWritten _ _ fault _ _ => exact absurd hexit (Trouble.exitStatus_ne_success (.file fault))

variable [Machine]

namespace Session

variable {session : Session (StateM World)}

/-- Setting a key with success notices the events of that, then a text that stays as it is, and
then which file was written. -/
theorem notices_of_setKey
    (hrun : (session.setKey source text layer key value keyCount target).run before =
      (transcript, after))
    (hexit : transcript.exit = .success) :
    ∃ (edited : Text) (written : List Text),
      Keymap.setKey text layer key value (keyCount <|> session.settings.keyCount)
        session.settings.opener = .ok edited ∧
      transcript.notices = session.log
        (setKeyEvents text layer key value (keyCount <|> session.settings.keyCount)
          session.settings.opener ++
          if edited = text then [.nothingChanged layer key] else []) ++ written.map .wrote := by
  rw [Session.setKey] at hrun
  dsimp only at hrun
  cases hset : Keymap.setKey text layer key value (keyCount <|> session.settings.keyCount)
      session.settings.opener with
  | error e =>
    rw [hset] at hrun
    obtain ⟨rfl, rfl⟩ := Prod.mk.inj hrun
    exact absurd hexit (Trouble.exitStatus_ne_success (.source e))
  | ok edited =>
    rw [hset] at hrun
    obtain ⟨written, hnotices⟩ := (delivery_of_deliver hrun).notices_of_success hexit
    exact ⟨edited, written, rfl, hnotices⟩

/-- Setting a key with success says that nothing changed exactly if there is a log and the text
stays as it is. -/
theorem says_of_setKey
    (hrun : (session.setKey source text layer key value keyCount target).run before =
      (transcript, after))
    (hexit : transcript.exit = .success) :
    transcript.Says (Event.nothingChanged layer key).record ↔ session.verbose = true ∧
      Keymap.setKey text layer key value (keyCount <|> session.settings.keyCount)
        session.settings.opener = .ok text := by
  obtain ⟨edited, written, hset, hnotices⟩ := notices_of_setKey hrun hexit
  rw [hset, Except.ok.injEq]
  constructor
  · rintro ⟨notice, hmem, hwords⟩
    rw [hnotices] at hmem
    rcases List.mem_append.mp hmem with hlog | hwrote
    · obtain ⟨hverbose, event, hevent, rfl⟩ := exists_of_mem_log hlog
      refine ⟨hverbose, ?_⟩
      rcases List.mem_append.mp hevent with hset | hlast
      · have hother : Notice.Other (.logged event) := .logged (level_of_mem_setKeyEvents hset)
        exact absurd hwords (hother.message_ne layer key)
      · by_contra hne
        rw [if_neg hne] at hlast
        cases hlast
    · obtain ⟨path, -, rfl⟩ := List.mem_map.mp hwrote
      exact absurd hwords ((Notice.Other.wrote path).message_ne layer key)
  · rintro ⟨hverbose, rfl⟩
    refine ⟨.logged (.nothingChanged layer key), ?_, rfl⟩
    rw [hnotices, log, if_pos hverbose]
    simp

end Session

/-! ## Command lines -/

/-- When the command that sets a key ends with success, the text of its source has parsed. A log
records that there is no such key exactly if the key is missing or holds the value already. This
holds of any disk and any reader of command lines. -/
theorem recorded_iff {reader : LineReader (StateM World)} {disk : Disk (StateM World)}
    {environment : Environment} {line : List Text} {verbose : Bool} {asked read : World}
    {bytes : List UInt8}
    (hrequest : (reader line).run before =
      (.serve verbose (.setKey source layer key value keyCount target), asked))
    (hread : (disk.read (normalPath source)).run asked = (.ok bytes, read))
    (hdecode : Utf8.decode bytes = .ok text)
    (hrun : (runCommandLine reader disk environment line).run before = (transcript, after))
    (hexit : transcript.exit = .success) :
    ∃ outline, parse text (keyCount <|> (Settings.read environment).keyCount)
        (Settings.read environment).opener = .ok outline ∧
      (transcript.Says (Event.nothingChanged layer key).record ↔ verbose = true ∧
        (outline.Lacks layer key ∨
          ∃ node, outline.key? layer key = some node ∧ value = node.content)) := by
  let session : Session (StateM World) := ⟨disk, Settings.read environment, verbose⟩
  let request : Request := .setKey source layer key value keyCount target
  have hserve : (session.run request).run asked = (session.perform text request).run read :=
    Session.run_of_read hread hdecode
  rw [runCommandLine_of_serve disk environment hrequest, hserve] at hrun
  cases hset : (session.perform text request).run read with
  | mk served left =>
    rw [hset] at hrun
    obtain ⟨rfl, rfl⟩ := Prod.mk.inj hrun
    obtain ⟨edited, -, hedited, -⟩ := Session.notices_of_setKey hset hexit
    obtain ⟨outline, hparse⟩ := exists_outline_of_setKey hedited
    refine ⟨outline, hparse, ?_⟩
    rw [Transcript.says_after_iff, Session.says_of_setKey hset hexit, setKey_eq_self_iff hparse]

end

open Usual

/-- A key behind the last one of its layer is set, which is recorded. -/
theorem recorded_iff_missing_key :
    let tree : Tree := ⟨[(["k".toList], .file (Utf8.encode "K(A)".toList))], [], 4095, 255⟩
    let transcript : Transcript := .done ["K(A)".toList] [.logged (.layerRead 0 0 1),
      .logged (.keyMissing 0 1), .logged (.nothingChanged 0 1)]
    (runCommandLine (readLine Tree.standing) Tree.disk [("KMEDIT_MACRO".toList, "K".toList)]
        (["-v", "set", "/k", "0", "1", "B"].map String.toList)).run tree = (transcript, tree) ∧
      ∃ outline, parse "K(A)".toList none "K".toList = .ok outline ∧
        (transcript.Says (Event.nothingChanged 0 1).record ↔ true = true ∧ (outline.Lacks 0 1 ∨
          ∃ node, outline.key? 0 1 = some node ∧ ['B'] = node.content)) := by
  intro tree transcript
  have hrequest : (readLine Tree.standing (["-v", "set", "/k", "0", "1", "B"].map
      String.toList)).run tree =
      (.serve true (.setKey "/k".toList 0 1 ['B'] none ⟨none, false⟩), tree) := by
    change @Eq (Asked × Tree) _ _
    decide +kernel
  have hrun : (runCommandLine (readLine Tree.standing) Tree.disk
      [("KMEDIT_MACRO".toList, "K".toList)]
      (["-v", "set", "/k", "0", "1", "B"].map String.toList)).run tree = (transcript, tree) := by
    change @Eq (Transcript × Tree) _ _
    decide +kernel
  have hread : (Tree.disk.read (normalPath "/k".toList)).run tree =
      (.ok (Utf8.encode "K(A)".toList), tree) := by
    change @Eq (Except FileFault (List UInt8) × Tree) _ _
    decide +kernel
  have hdecode := Utf8.decode_encode "K(A)".toList
  exact ⟨hrun, recorded_iff hrequest hread hdecode hrun rfl⟩

/-- A key that exists is recorded as missing, since it is set to the value that it holds. -/
theorem recorded_for_existing_key :
    let tree : Tree :=
      ⟨[(["keymap.c".toList], .file (Utf8.encode "KEYMAP(A)".toList))], [], 4095, 255⟩
    let transcript : Transcript := .done ["KEYMAP(A)".toList] [.logged (.layerRead 0 0 1),
      .logged (.layerRead 0 0 1), .logged (.keySet 0 0 ['A'] ['A']),
      .logged (.nothingChanged 0 0)]
    (runCommandLine (readLine Tree.standing) Tree.disk []
        (["-v", "set", "keymap.c", "0", "0", "A"].map String.toList)).run tree =
        (transcript, tree) ∧
      transcript.Says (Event.nothingChanged 0 0).record ∧
      parse "KEYMAP(A)".toList none defaultOpener = .ok ⟨[[.word ['A'] 7 8]], 9⟩ ∧
      ¬ Outline.Lacks ⟨[[.word ['A'] 7 8]], 9⟩ 0 0 := by
  intro tree transcript
  refine ⟨?_, ⟨.logged (.nothingChanged 0 0), by simp [transcript, Transcript.done], rfl⟩,
    by decide +kernel, ?_⟩
  · change @Eq (Transcript × Tree) _ _
    decide +kernel
  · rw [← Outline.key?_eq_none_iff]
    exact Option.some_ne_none _

end Keymap
