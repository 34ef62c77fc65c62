import Keymap.Command.Arguments
import Keymap.Command.Tree
import Keymap.Proofs.Delivery

/-!
# All or nothing

A command either does its whole work or none. Everything that can go wrong goes wrong before a file
is written: the command line, the encoding of the source, its layers, the edited text and the choice
of a target are looked at first. So, on a lawful disk and with a reader of command lines that only
looks at it, a command that fails leaves the world as it was and shows nothing, and a command that
succeeds changes one file at most.

## Key results

- `Delivery.allOrNothing`, `Editing.allOrNothing` — delivering and editing are all or nothing
- `Session.run_all_or_nothing` — and so is a request
- `command_all_or_nothing` — every command line is all or nothing
-/

namespace Keymap

section

variable {World Name : Type} {files : Files World Name} {before after : World}
  {written? : Option Text} {transcript : Transcript}

/-! ## What a run may do -/

/-- All or nothing: a run that fails leaves the world as it is and shows nothing, however it is
echoed. A run may write to the file at a path, if it has one. Then it shows nothing either way, and
changes no other file; without a path it changes nothing at all. -/
structure AllOrNothing (files : Files World Name) (before : World) (written? : Option Text)
    (transcript : Transcript) (after : World) : Prop where
  failed : transcript.exit ≠ .success → after = before ∧ ∀ echo, transcript.shownOutput echo = []
  untouched : written? = none → after = before
  quiet : written?.isSome → ∀ echo, transcript.shownOutput echo = []
  others : ∀ path ∈ written?, ∀ name, files.name? before path ≠ some name →
    files.bytes? after name = files.bytes? before name

namespace AllOrNothing

/-- A failure that leaves the world as it is. -/
theorem of_failed (files : Files World Name) (before : World) (written? : Option Text)
    (notices : List Notice) (trouble : Trouble) :
    AllOrNothing files before written? (.failed notices trouble) before where
  failed _ := ⟨rfl, fun _ => rfl⟩
  untouched _ := rfl
  quiet _ _ := rfl
  others _ _ _ _ := rfl

/-- A run without a file to write to, which shows something only if it succeeds. -/
theorem of_output (files : Files World Name) (before : World)
    (h : transcript.exit ≠ .success → transcript.output = []) :
    AllOrNothing files before none transcript before where
  failed hexit := ⟨rfl, fun _ => by rw [Transcript.shownOutput, h hexit, List.flatMap_nil]⟩
  untouched _ := rfl
  quiet hsome := by cases hsome
  others _ hsome := by cases hsome

/-- Notices do not matter. -/
theorem transcript_after (h : AllOrNothing files before written? transcript after)
    (notices : List Notice) :
    AllOrNothing files before written? (transcript.after notices) after where
  failed := h.failed
  untouched := h.untouched
  quiet := h.quiet
  others := h.others

end AllOrNothing

/-! ## Edits -/

section

variable {disk : Disk (StateM World)} {source : Text} {target : Target} {notices : List Notice}

/-- Delivering a text is all or nothing. -/
theorem Delivery.allOrNothing {text : Text} (hlawful : disk.Lawful files)
    (h : Delivery disk before source text notices target transcript after) :
    AllOrNothing files before (target.path? source) transcript after := by
  cases h with
  | twoTargets path => exact .of_failed files before _ notices .twoTargets
  | output => exact .of_output files before fun hexit => absurd rfl hexit
  | notWritten _ hwrite =>
    obtain rfl := hlawful.write_error hwrite
    exact .of_failed files _ _ notices _
  | @written _ path _ hpath hwrite =>
    refine ⟨fun hexit => absurd rfl hexit, fun hnone => ?_, fun _ _ => rfl, fun other hother => ?_⟩
    · cases hpath.symm.trans hnone
    · obtain rfl := Option.some.inj (hpath.symm.trans hother)
      exact fun name => hlawful.bytes_write_ne hwrite

/-- An edit is all or nothing. -/
theorem Editing.allOrNothing {result : Except Trouble Text} (hlawful : disk.Lawful files)
    (h : Editing disk before source target result notices transcript after) :
    AllOrNothing files before (target.path? source) transcript after := by
  cases h with
  | failed _ => exact .of_failed files before _ notices _
  | delivered _ hdelivery => exact hdelivery.allOrNothing hlawful

end

/-! ## Requests -/

/-- The file that a request may write to: the source if it shall be edited in place, or the output
that is named. There is none for a list of layers, nor if the result is put out. -/
def Request.path? (request : Request) : Option Text :=
  request.target?.bind (·.path? request.source)

variable [Machine]

/-- A list of layers that fails shows nothing. -/
theorem Session.output_showLayers {m : Type → Type} [Monad m] (session : Session m) (text : Text)
    (keyCount : Option Int) (trees : Bool)
    (h : (session.showLayers text keyCount trees).exit ≠ .success) :
    (session.showLayers text keyCount trees).output = [] := by
  simp only [showLayers] at h ⊢
  split
  · rfl
  · rename_i outline houtline
    -- With an outline the list has success.
    exact absurd ((session.showLayers_exit_iff text keyCount trees).mpr ⟨outline, houtline⟩)
      (by simpa only [showLayers] using h)

namespace Session

variable {session : Session (StateM World)} {request : Request}

/-- What is done for a request with the text of its source is all or nothing. -/
theorem perform_all_or_nothing {text : Text} (hlawful : session.disk.Lawful files)
    (hrun : (session.perform text request).run before = (transcript, after)) :
    AllOrNothing files before request.path? transcript after := by
  cases request with
  | showLayers source keyCount trees =>
    obtain ⟨rfl, rfl⟩ := Prod.mk.inj hrun
    exact .of_output files before (session.output_showLayers text keyCount trees)
  | setKey source layer key value keyCount target =>
    obtain ⟨notices, -, hediting⟩ := editing_of_setKey hrun
    exact hediting.allOrNothing hlawful
  | addLayer source placeholder validate target =>
    obtain ⟨notices, checked, -, hediting⟩ := editing_of_addLayer hrun
    exact hediting.allOrNothing hlawful

/-- A request is all or nothing. -/
theorem run_all_or_nothing (hlawful : session.disk.Lawful files)
    (hrun : (session.run request).run before = (transcript, after)) :
    AllOrNothing files before request.path? transcript after := by
  have hcases := session.run_cases request before
  rw [hlawful.idle_read, hrun] at hcases
  rcases hcases with ⟨trouble, hfailed⟩ | ⟨text, hperform⟩
  · obtain ⟨rfl, rfl⟩ := Prod.mk.inj hfailed
    exact .of_failed files _ _ [] trouble
  · exact perform_all_or_nothing hlawful hperform.symm

end Session

/-! ## Command lines -/

/-- The file that a command line may write to, if it comes to a request that has one. -/
def Asked.path? : Asked → Option Text
  | .serve _ request => request.path?
  | .answer .. | .refuse _ => none

/-- Every command line is all or nothing, whatever files there are and whatever the environment
says. If it fails, all files are what they were, none is new, and nothing is shown. If it succeeds,
it has changed at most the file that it may write to, and with such a file nothing is shown. -/
theorem command_all_or_nothing {disk : Disk (StateM World)} {reader : LineReader (StateM World)}
    {environment : Environment} {line : List Text} (hlawful : disk.Lawful files)
    (hidle : Idle (reader line))
    (hrun : (runCommandLine reader disk environment line).run before = (transcript, after)) :
    AllOrNothing files before ((reader line).run before).1.path? transcript after := by
  cases hasked : (reader line).run before with
  | mk asked between =>
    -- Reading the line has changed nothing.
    have hbetween : between = before := by
      rw [← hidle before, hasked]
    subst hbetween
    cases asked with
    | serve verbose request =>
      rw [runCommandLine_of_serve disk environment hasked] at hrun
      obtain ⟨rfl, rfl⟩ := Prod.mk.inj hrun
      exact (Session.run_all_or_nothing hlawful rfl).transcript_after _
    | answer named text =>
      rw [runCommandLine, StateT.run_bind, hasked] at hrun
      obtain ⟨rfl, rfl⟩ := Prod.mk.inj hrun
      exact .of_output files _ fun hexit => absurd rfl hexit
    | refuse named =>
      rw [runCommandLine, StateT.run_bind, hasked] at hrun
      obtain ⟨rfl, rfl⟩ := Prod.mk.inj hrun
      exact .of_failed files _ _ _ .usage

end

open Usual

/-- A key is set, first with two targets and then with one of them. The first run changes nothing,
and the second one leaves the source alone. -/
theorem command_all_or_nothing_two_runs :
    let run (line : List String) : StateM Tree Transcript := runCommandLine
      (readLine Tree.standing) Tree.disk [("KMEDIT_MACRO".toList, "K".toList)]
      (line.map String.toList)
    let source : List Text × Entry := (["k".toList], .file (Utf8.encode "K(A)".toList))
    let written : List Text × Entry := (["new".toList], .file (Utf8.encode "K(B)".toList))
    let tree (entries : List (List Text × Entry)) : Tree := ⟨entries, [], 4095, 255⟩
    ((run ["set", "/k", "0", "0", "B", "-o", "new", "-i"]).run (tree [source]) =
        (.failed [] .twoTargets, tree [source]) ∧
      AllOrNothing Tree.files (tree [source]) none (.failed [] .twoTargets) (tree [source])) ∧
    (run ["set", "/k", "0", "0", "B", "-o", "new"]).run (tree [source]) =
        (.done [] [.wrote "new".toList], tree [source, written]) ∧
      AllOrNothing Tree.files (tree [source]) (some "new".toList) (.done [] [.wrote "new".toList])
        (tree [source, written]) := by
  intro run source written tree
  have hidle (line : List Text) : Idle (readLine Tree.standing line) :=
    idle_readLine (fun _ _ => rfl) line
  have hboth : (run ["set", "/k", "0", "0", "B", "-o", "new", "-i"]).run (tree [source]) =
      (.failed [] .twoTargets, tree [source]) := by
    change @Eq (Transcript × Tree) _ _
    decide +kernel
  have hone : (run ["set", "/k", "0", "0", "B", "-o", "new"]).run (tree [source]) =
      (.done [] [.wrote "new".toList], tree [source, written]) := by
    change @Eq (Transcript × Tree) _ _
    decide +kernel
  have hnone : ((readLine Tree.standing (["set", "/k", "0", "0", "B", "-o", "new", "-i"].map
      String.toList)).run (tree [source])).1.path? = none := by decide +kernel
  have hnew : ((readLine Tree.standing (["set", "/k", "0", "0", "B", "-o", "new"].map
      String.toList)).run (tree [source])).1.path? = some "new".toList := by decide +kernel
  exact ⟨⟨hboth, hnone ▸ command_all_or_nothing Tree.lawful (hidle _) hboth⟩, hone,
    hnew ▸ command_all_or_nothing Tree.lawful (hidle _) hone⟩

end Keymap
