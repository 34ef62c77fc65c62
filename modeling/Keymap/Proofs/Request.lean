import Keymap.Command.Run

/-!
# Requests

A command line comes to a request, to an answer, or to a mistake. To serve a request its source is
read and decoded, and then it is done what is asked for with the text. All of this is about any disk
and any reader of command lines, which need not keep any laws.

## Key results

- `runCommandLine_of_serve` — a request is served, with remarks before its notices
- `Session.run_of_read` — a request is done once its source is read and decoded
- `Session.run_cases` — otherwise it fails without a trace
-/

namespace Keymap

variable {World : Type} {before between : World}

/-- The source is read first, and then decoded. -/
theorem Session.run_loadText (session : Session (StateM World)) (source : Text) (before : World) :
    (session.loadText source).run before =
      Prod.map (fun
        | .error fault => .error (.file fault)
        | .ok bytes => (Utf8.decode bytes).mapError .encoding) id
        ((session.disk.read (normalPath source)).run before) := by
  rw [loadText, StateT.run_bind]
  rcases (session.disk.read (normalPath source)).run before with ⟨_ | bytes, between⟩
  · rfl
  · dsimp only [bind, Prod.map]
    cases Utf8.decode bytes <;> rfl

variable [Machine]

/-- A request of a command line is served where the line has been read, with remarks on the settings
before its notices. -/
theorem runCommandLine_of_serve {reader : LineReader (StateM World)} {line : List Text}
    {verbose : Bool} {request : Request} (disk : Disk (StateM World)) (environment : Environment)
    (h : (reader line).run before = (.serve verbose request, between)) :
    (runCommandLine reader disk environment line).run before =
      Prod.map (·.after (Settings.remarks environment)) id
        ((Session.run ⟨disk, Settings.read environment, verbose⟩ request).run between) := by
  rw [runCommandLine, StateT.run_bind, h]
  rfl

namespace Session

variable {session : Session (StateM World)} {request : Request}

/-- A request is done where its source has been read. -/
theorem run_of_read {bytes : List UInt8} {text : Text}
    (hread : (session.disk.read (normalPath request.source)).run before = (.ok bytes, between))
    (hdecode : Utf8.decode bytes = .ok text) :
    (session.run request).run before = (session.perform text request).run between := by
  rw [run, StateT.run_bind, run_loadText, hread]
  simp only [Prod.map, hdecode]
  rfl

/-- A request fails when its source is read, or it is done with some text. -/
theorem run_cases (session : Session (StateM World)) (request : Request) (before : World) :
    let between := ((session.disk.read (normalPath request.source)).run before).2
    (∃ trouble, (session.run request).run before = (.failed [] trouble, between)) ∨
      ∃ text, (session.run request).run before = (session.perform text request).run between := by
  intro between
  cases hread : (session.disk.read (normalPath request.source)).run before with
  | mk found after =>
    have hafter : after = between := by simp only [between, hread]
    subst hafter
    cases found with
    | error fault =>
      refine .inl ⟨.file fault, ?_⟩
      rw [run, StateT.run_bind, run_loadText, hread]
      rfl
    | ok bytes =>
      cases hdecode : Utf8.decode bytes with
      | error fault =>
        refine .inl ⟨.encoding fault, ?_⟩
        rw [run, StateT.run_bind, run_loadText, hread]
        simp only [Prod.map, hdecode]
        rfl
      | ok text => exact .inr ⟨text, run_of_read hread hdecode⟩

end Session

end Keymap
