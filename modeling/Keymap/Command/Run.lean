import Keymap.Command.Transcript
import Keymap.Node.Dump
import Keymap.Settings
import Keymap.Template.Pattern

/-!
# Commands

What the keymap editor does when it is asked to: it lists the layers of a source or dumps their
trees, it sets one key, or it adds a layer. An edited text goes to the output, to a file, or back to
the source. A command runs on any disk, and is taken from a command line by any reader of command
lines; nothing is written before everything else has gone well.

## Key results

- `Session.showLayers_exit_iff` — the layers of a text are listed exactly if the text parses
-/

namespace Keymap

/-! ## Requests -/

/-- Where an edited text goes: to a file, back to its source, or else to the output. -/
structure Target where
  output : Option Text
  inPlace : Bool
  deriving DecidableEq, Repr

/-- What a command is asked to do. -/
inductive Request where
  | showLayers (source : Text) (keyCount : Option Int) (trees : Bool)
  | setKey (source : Text) (layer key : Int) (value : Text) (keyCount : Option Int)
      (target : Target)
  | addLayer (source : Text) (placeholder : Option Text) (validate : Option Bool)
      (target : Target)
  deriving DecidableEq, Repr

namespace Request

/-- The path of the source. -/
def source : Request → Text
  | .showLayers source .. | .setKey source .. | .addLayer source .. => source

/-- Where the result of an edit goes. Nothing is edited to be listed. -/
def target? : Request → Option Target
  | .showLayers .. => none
  | .setKey _ _ _ _ _ target | .addLayer _ _ _ target => some target

end Request

/-! ## Running a request -/

/-- How a command is run: on which disk, with which settings, and whether it logs. -/
structure Session (m : Type → Type) where
  disk : Disk m
  settings : Settings
  verbose : Bool

variable [Machine]

namespace Session

variable {m : Type → Type} [Monad m]

/-- Events as notices, if there is a log. -/
def log (session : Session m) (events : List Event) : List Notice :=
  if session.verbose then events.map .logged else []

/-- The text of a source. -/
def loadText (session : Session m) (source : Text) : m (Except Trouble Text) := do
  match ← session.disk.read (normalPath source) with
  | .error fault => return .error (.file fault)
  | .ok bytes =>
    match Utf8.decode bytes with
    | .error fault => return .error (.encoding fault)
    | .ok text => return .ok text

/-- Write a text to a file. -/
def writeText (session : Session m) (path text : Text) (notices : List Notice) :
    m Transcript := do
  match ← session.disk.write path (Utf8.encode text) with
  | .error fault => return .failed notices (.file fault)
  | .ok () => return .done [] (notices ++ [.wrote path])

/-- Deliver an edited text. -/
def deliver (session : Session m) (source text : Text) (target : Target)
    (notices : List Notice) : m Transcript :=
  match target.output, target.inPlace with
  | some _, true => return .failed notices .twoTargets
  | none, false => return .done [text] notices
  | some path, false => session.writeText (normalPath path) text notices
  | none, true => session.writeText (normalPath source) text notices

/-- List the layers of a text, or dump their trees. -/
def showLayers (session : Session m) (text : Text) (keyCount : Option Int) (trees : Bool) :
    Transcript :=
  let reading := readText text (keyCount <|> session.settings.keyCount) session.settings.opener
  let notices := session.log reading.events
  match reading.outcome with
  | .error e => .failed notices (.source e)
  | .ok outline =>
    if trees then
      match Node.layersText outline.layers with
      | .ok dump => .done [dump ++ ['\n']] notices
      | .error value => nomatch value
    else
      let lines := outline.layers.mapIdx fun number keys =>
        "Layer ".toList ++ spell number ++ ": ".toList ++
          ", ".toList.intercalate (keys.map Node.content) ++ ['\n']
      .done lines
        (notices ++
          if session.verbose then [.counts outline.layerCount outline.keyCount] else [])

/-- Set a key of a source. -/
def setKey (session : Session m) (source text : Text) (layer key : Int) (value : Text)
    (keyCount : Option Int) (target : Target) : m Transcript :=
  let keyCount := keyCount <|> session.settings.keyCount
  let opener := session.settings.opener
  let events := setKeyEvents text layer key value keyCount opener
  match Keymap.setKey text layer key value keyCount opener with
  | .error e => return .failed (session.log events) (.source e)
  | .ok edited =>
    let unchanged := if edited = text then [Event.nothingChanged layer key] else []
    session.deliver source edited target (session.log (events ++ unchanged))

/-- Add a layer to a source. -/
def addLayer (session : Session m) (source text : Text) (placeholder : Option Text)
    (validate : Option Bool) (target : Target) : m Transcript :=
  let settings := { session.settings with
    placeholder := match placeholder with
      | none | some [] => session.settings.placeholder
      | some placeholder => placeholder
    validateAddition := validate.getD session.settings.validateAddition }
  let events := addLayerEvents fill text settings.template settings.validateAddition
  match Keymap.addLayer fill text settings.template settings.validateAddition with
  | .error (.source e) => return .failed (session.log events) (.source e)
  | .error (.template fault) => return .failed (session.log events) (.template fault)
  | .ok edited =>
    let warning := if edited = text then [Notice.noLayerAdded (normalPath source)] else []
    session.deliver source edited target (session.log events ++ warning)

/-- Do what is asked for with the text of the source. -/
def perform (session : Session m) (text : Text) : Request → m Transcript
  | .showLayers _ keyCount trees => return session.showLayers text keyCount trees
  | .setKey source layer key value keyCount target =>
    session.setKey source text layer key value keyCount target
  | .addLayer source placeholder validate target =>
    session.addLayer source text placeholder validate target

/-- Do what is asked for. -/
def run (session : Session m) (request : Request) : m Transcript := do
  match ← session.loadText request.source with
  | .error trouble => return .failed [] trouble
  | .ok text => session.perform text request

end Session

/-- The layers of a text are listed exactly if the text parses. -/
theorem Session.showLayers_exit_iff {m : Type → Type} (session : Session m) (text : Text)
    (keyCount : Option Int) (trees : Bool) :
    (session.showLayers text keyCount trees).exit = .success ↔
      ∃ outline, parse text (keyCount <|> session.settings.keyCount) session.settings.opener =
        .ok outline := by
  simp only [showLayers, parse]
  cases (readText text _ _).outcome with
  | error e => simp [Transcript.failed, Trouble.exitStatus_ne_success]
  | ok outline =>
    -- Trees that were read from a text hold nothing that cannot be dumped.
    simp only
    split
    · split
      · simp [Transcript.done]
      · rename_i value _
        exact nomatch value
    · simp [Transcript.done]

/-! ## Command lines -/

/-- What a command line comes to. Settings are read as soon as a command is named. -/
inductive Asked where
  /-- A request, which is logged or not. -/
  | serve (verbose : Bool) (request : Request)
  /-- An answer that makes everything else superfluous, such as help. -/
  | answer (named : Bool) (text : Text)
  /-- A mistake. -/
  | refuse (named : Bool)
  deriving DecidableEq, Repr

/-- A reader of command lines. It may look at the machine, for instance for the paths of a
request. -/
abbrev LineReader (m : Type → Type) := List Text → m Asked

/-- What is remarked on settings when they are read. -/
def Settings.remarks (environment : Environment) : List Notice :=
  (readEvents environment).map .remarked

/-- Run a command line. -/
def runCommandLine {m : Type → Type} [Monad m] (reader : LineReader m) (disk : Disk m)
    (environment : Environment) (line : List Text) : m Transcript := do
  let remarks := Settings.remarks environment
  match ← reader line with
  | .answer named text => return .done [text] (if named then remarks else [])
  | .refuse named => return .failed (if named then remarks else []) .usage
  | .serve verbose request =>
    let session : Session m := ⟨disk, Settings.read environment, verbose⟩
    return (← session.run request).after remarks

end Keymap
