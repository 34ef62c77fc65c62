import Keymap.Proofs.Request

/-!
# Deliveries

What editing a source can come to, on any disk. An edit fails before anything is written, or its
result is delivered to the output or to one file, which may fail as well.

## Key results

- `delivery_of_deliver` — all that delivering a text can do
- `editing_of_setKey`, `editing_of_addLayer` — all that an edit of a source can come to
-/

namespace Keymap

/-! ## Notices -/

/-- A log warns of nothing. -/
theorem Session.not_mem_log {m : Type → Type} [Monad m] (session : Session m) (events : List Event)
    (path : Text) : .noLayerAdded path ∉ session.log events := by
  rw [log]
  split <;> simp

/-- A list of layers warns of nothing. -/
theorem Session.not_mem_showLayers [Machine] {m : Type → Type} [Monad m] (session : Session m)
    (text : Text) (keyCount : Option Int) (trees : Bool) (path : Text) :
    .noLayerAdded path ∉ (session.showLayers text keyCount trees).notices := by
  simp only [showLayers]
  split
  · simp [Transcript.failed, not_mem_log]
  · split
    · split
      · simp [Transcript.done, not_mem_log]
      · rename_i value _
        exact value.elim
    · have hcounts (counts : Notice) (h : ∀ source, counts ≠ .noLayerAdded source) :
          .noLayerAdded path ∉ (if session.verbose then [counts] else []) := by
        split <;> simp [(h path).symm]
      simp [Transcript.done, not_mem_log, hcounts]

/-! ## Deliveries -/

/-- The file that is written to, if one is. -/
def Target.path? (source : Text) : Target → Option Text
  | ⟨some path, false⟩ => some (normalPath path)
  | ⟨none, true⟩ => some (normalPath source)
  | ⟨none, false⟩ | ⟨some _, true⟩ => none

/-- A target whose file is known is only one. -/
theorem Target.single_of_path? {source path : Text} {target : Target}
    (h : target.path? source = some path) : target.output = none ∨ target.inPlace = false := by
  obtain ⟨output, inPlace⟩ := target
  cases output with
  | none => exact .inl rfl
  | some other =>
    cases inPlace with
    | false => exact .inr rfl
    | true => cases h

variable {World : Type}

/-- All that delivering a text can do. -/
inductive Delivery (disk : Disk (StateM World)) (before : World) (source text : Text)
    (notices : List Notice) : Target → Transcript → World → Prop
  | twoTargets (path : Text) :
    Delivery disk before source text notices ⟨some path, true⟩ (.failed notices .twoTargets) before
  | output :
    Delivery disk before source text notices ⟨none, false⟩ (.done [text] notices) before
  | written {target : Target} {path : Text} {after : World} :
    target.path? source = some path →
    (disk.write path (Utf8.encode text)).run before = (.ok (), after) →
    Delivery disk before source text notices target (.done [] (notices ++ [.wrote path])) after
  | notWritten {target : Target} {path : Text} {fault : FileFault} {after : World} :
    target.path? source = some path →
    (disk.write path (Utf8.encode text)).run before = (.error fault, after) →
    Delivery disk before source text notices target (.failed notices (.file fault)) after

variable {session : Session (StateM World)} {before after : World} {source text : Text}
  {target : Target} {notices : List Notice} {transcript : Transcript}

/-- Writing a text says so, or says what the fault is. -/
theorem Session.run_writeText (session : Session (StateM World)) (path text : Text)
    (notices : List Notice) (before : World) :
    (session.writeText path text notices).run before =
      Prod.map (fun
        | .error fault => .failed notices (.file fault)
        | .ok () => .done [] (notices ++ [.wrote path])) id
        ((session.disk.write path (Utf8.encode text)).run before) := by
  rw [writeText, StateT.run_bind]
  rcases (session.disk.write path (Utf8.encode text)).run before with ⟨_ | _, after⟩ <;> rfl

/-- Delivering a text does one of these. -/
theorem delivery_of_deliver
    (hrun : (session.deliver source text target notices).run before = (transcript, after)) :
    Delivery session.disk before source text notices target transcript after := by
  -- If one file is the target, the answer of the disk decides what is said.
  have hfile {path : Text} (hpath : target.path? source = some path)
      (hwrite : (session.writeText path text notices).run before = (transcript, after)) :
      Delivery session.disk before source text notices target transcript after := by
    rw [Session.run_writeText] at hwrite
    cases hbytes : (session.disk.write path (Utf8.encode text)).run before with
    | mk outcome left =>
      rw [hbytes] at hwrite
      obtain ⟨rfl, rfl⟩ := Prod.mk.inj hwrite
      cases outcome with
      | error fault => exact .notWritten hpath hbytes
      | ok _ => exact .written hpath hbytes
  match target with
  | ⟨some path, false⟩ => exact hfile rfl hrun
  | ⟨none, true⟩ => exact hfile rfl hrun
  | ⟨some path, true⟩ =>
    obtain ⟨rfl, rfl⟩ := Prod.mk.inj hrun
    exact .twoTargets path
  | ⟨none, false⟩ =>
    obtain ⟨rfl, rfl⟩ := Prod.mk.inj hrun
    exact .output

/-- A delivery warns of nothing. -/
theorem Delivery.warns_iff {disk : Disk (StateM World)}
    (h : Delivery disk before source text notices target transcript after) (path : Text) :
    .noLayerAdded path ∈ transcript.notices ↔ .noLayerAdded path ∈ notices := by
  cases h <;> simp [Transcript.failed, Transcript.done]

/-! ## Edits -/

/-- All that an edit can come to: it fails, or its result is delivered. -/
inductive Editing (disk : Disk (StateM World)) (before : World) (source : Text) (target : Target)
    (result : Except Trouble Text) (notices : List Notice) : Transcript → World → Prop
  | failed {trouble : Trouble} : result = .error trouble →
    Editing disk before source target result notices (.failed notices trouble) before
  | delivered {edited : Text} {transcript : Transcript} {after : World} : result = .ok edited →
    Delivery disk before source edited notices target transcript after →
    Editing disk before source target result notices transcript after

/-- An edit warns of what it has noticed before its end. -/
theorem Editing.warns_iff {disk : Disk (StateM World)} {result : Except Trouble Text}
    (h : Editing disk before source target result notices transcript after) (path : Text) :
    .noLayerAdded path ∈ transcript.notices ↔ .noLayerAdded path ∈ notices := by
  cases h with
  | failed _ => simp [Transcript.failed]
  | delivered _ hdelivery => exact hdelivery.warns_iff path

/-- The trouble that a fault of an addition means. -/
def AdditionFault.trouble : AdditionFault → Trouble
  | .source e => .source e
  | .template fault => .template fault

/-- The placeholder of a request: the one that it names, unless it is empty, or else that of the
settings. -/
def Settings.placeholderFor (settings : Settings) (placeholder : Option Text) : Text :=
  (placeholder.filter (· ≠ [])).getD settings.placeholder

/-- The template of a request for a layer. -/
def Settings.templateFor (settings : Settings) (placeholder : Option Text) : Template :=
  { settings.template with placeholder := settings.placeholderFor placeholder }

variable [Machine]

/-- Setting a key of a source. There is no warning. -/
theorem editing_of_setKey {value : Text} {layer key : Int} {keyCount : Option Int}
    (hrun : (session.setKey source text layer key value keyCount target).run before =
      (transcript, after)) :
    ∃ notices, (∀ path, .noLayerAdded path ∉ notices) ∧
      Editing session.disk before source target
        ((setKey text layer key value (keyCount <|> session.settings.keyCount)
          session.settings.opener).mapError .source) notices transcript after := by
  have hlog := session.not_mem_log
  rw [Session.setKey] at hrun
  dsimp only at hrun
  cases hset : setKey text layer key value (keyCount <|> session.settings.keyCount)
      session.settings.opener with
  | error e =>
    rw [hset] at hrun
    obtain ⟨rfl, rfl⟩ := Prod.mk.inj hrun
    exact ⟨_, hlog _, .failed rfl⟩
  | ok edited =>
    rw [hset] at hrun
    exact ⟨_, hlog _, .delivered rfl (delivery_of_deliver hrun)⟩

/-- A layer is added with the template of the request. -/
theorem Session.addLayer_eq {m : Type → Type} [Monad m] (session : Session m)
    (source text : Text) (placeholder : Option Text) (validate : Option Bool) (target : Target) :
    session.addLayer source text placeholder validate target =
      let checked := validate.getD session.settings.validateAddition
      let template := session.settings.templateFor placeholder
      let notices := session.log (addLayerEvents fill text template checked)
      match Keymap.addLayer fill text template checked with
      | .error (.source e) => return .failed notices (.source e)
      | .error (.template fault) => return .failed notices (.template fault)
      | .ok edited =>
        session.deliver source edited target
          (notices ++ if edited = text then [.noLayerAdded (normalPath source)] else []) := by
  match placeholder with
  | none | some [] | some (_ :: _) => rfl

/-- Adding a layer to a source. There is a warning if nothing is added. -/
theorem editing_of_addLayer {placeholder : Option Text} {validate : Option Bool}
    (hrun : (session.addLayer source text placeholder validate target).run before =
      (transcript, after)) :
    ∃ notices checked, (∀ path, .noLayerAdded path ∈ notices ↔ path = normalPath source ∧
        addLayer fill text (session.settings.templateFor placeholder) checked = .ok text) ∧
      Editing session.disk before source target
        ((addLayer fill text (session.settings.templateFor placeholder) checked).mapError
          AdditionFault.trouble) notices transcript after := by
  have hlog := session.not_mem_log
  rw [Session.addLayer_eq] at hrun
  dsimp only at hrun
  -- What follows depends neither on what decides whether to check nor on the events.
  generalize validate.getD session.settings.validateAddition = checked at hrun
  generalize addLayerEvents _ _ _ _ = events at hrun
  cases hadd : addLayer fill text (session.settings.templateFor placeholder) checked with
  | error fault =>
    have hfailed : (transcript, after) = (.failed (session.log events) fault.trouble, before) := by
      rw [← hrun, hadd]
      cases fault <;> rfl
    obtain ⟨rfl, rfl⟩ := Prod.mk.inj hfailed
    refine ⟨_, checked, fun path => iff_of_false (hlog events path) fun h => ?_, .failed ?_⟩
    · cases hadd.symm.trans h.2
    · rw [hadd]
      rfl
  | ok edited =>
    rw [hadd] at hrun
    refine ⟨_, checked, fun path => ?_, .delivered (congrArg _ hadd) (delivery_of_deliver hrun)⟩
    -- The log warns of nothing, so the warning is the one for a text that stays as it is.
    rw [List.mem_append, or_iff_right (hlog events path), hadd, Except.ok.injEq]
    split <;> simp [*]

end Keymap
