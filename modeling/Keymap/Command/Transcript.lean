import Keymap.Command.Disk
import Keymap.Edit

/-!
# Transcripts

What is seen of a command that ran: its exit status, its output, and the notices beside it. A
command that fails says so in its last notice and puts nothing out. How a text is shown is the
concern of an echo, which may leave out of it what the receiver cannot show.

## Key results

- `Trouble.exitStatus_ne_success` — no trouble is a success
-/

namespace Keymap

/-- How a command ended. -/
inductive ExitStatus where
  | success
  /-- The source does not parse, or would not after the edit. -/
  | keymapError
  /-- The arguments do not fit together, or a file cannot be used. -/
  | badArguments
  /-- Anything else. -/
  | internalError
  deriving DecidableEq, Repr

/-- The number of an exit status. -/
def ExitStatus.number : ExitStatus → Nat
  | .success => 0
  | .keymapError => 1
  | .badArguments => 2
  | .internalError => 3

/-- Why a command fails. -/
inductive Trouble where
  /-- The command line cannot be understood. -/
  | usage
  /-- The source, or the edited text, does not parse. -/
  | source (error : SyntaxError)
  /-- The source is not encoded as it should be. -/
  | encoding (fault : Utf8.Fault)
  /-- The result shall go to two places. -/
  | twoTargets
  /-- A file cannot be used. -/
  | file (fault : FileFault)
  /-- A new layer cannot be written. -/
  | template (fault : TemplateFault)
  deriving DecidableEq

namespace Trouble

/-- The exit status of a trouble. A file that is not there or not accessible is the caller's fault,
any other obstacle is not. -/
def exitStatus : Trouble → ExitStatus
  | .usage | .encoding _ | .twoTargets => .badArguments
  | .source _ => .keymapError
  | .file ⟨.notFound, _⟩ | .file ⟨.denied, _⟩ => .badArguments
  | .file _ | .template _ => .internalError

/-- The wording of a trouble. -/
def message : Trouble → Text
  | .usage => "Error: the arguments are not understood, try 'kmedit --help'".toList
  | .source error => error.report
  | .encoding fault => "Error: source is not valid UTF-8: ".toList ++ fault.message
  | .twoTargets => "Error: use either --output or --in-place, not both".toList
  | .file ⟨.notFound, path⟩ => "Error: ".toList ++ FileFault.message ⟨.notFound, path⟩
  | .file ⟨.denied, path⟩ => "Error: ".toList ++ FileFault.message ⟨.denied, path⟩
  | .file fault => "Internal error: ".toList ++ fault.message
  | .template fault => "Internal error: ".toList ++ fault.message

/-- A command that fails does not end like one that has done its work. -/
theorem exitStatus_ne_success (trouble : Trouble) : trouble.exitStatus ≠ .success := by
  unfold exitStatus
  split <;> decide

end Trouble

/-- Something a command says beside its output. -/
inductive Notice where
  /-- An event, in a record of the log. -/
  | logged (event : Event)
  /-- An event, before there is a log. -/
  | remarked (event : Event)
  /-- How many layers and keys there are. -/
  | counts (layers keys : Nat)
  /-- The source was written back as it was. -/
  | noLayerAdded (source : Text)
  /-- A file was written. -/
  | wrote (target : Text)
  /-- The command failed. -/
  | trouble (trouble : Trouble)
  deriving DecidableEq

/-- The wording of a notice. -/
def Notice.message : Notice → Text
  | .logged event => event.record
  | .remarked event => event.message
  | .counts layers keys =>
    spell layers ++ " layers, ".toList ++ spell keys ++ " keys each".toList
  | .noLayerAdded source =>
    "Warning: no layer added, ".toList ++ source ++ " does not parse".toList
  | .wrote target => "Wrote ".toList ++ target
  | .trouble reason => reason.message

/-- A notice as it is shown, in a line of its own. The log is written as it is, and everything else
is echoed. -/
def Notice.shown (echo : Text → Text) (notice : Notice) : Text :=
  let line := notice.message ++ ['\n']
  match notice with
  | .logged _ | .remarked _ => line
  | _ => echo line

/-- What is seen of a command that ran. -/
structure Transcript where
  exit : ExitStatus
  /-- The texts that are echoed to the output, in order. -/
  output : List Text
  notices : List Notice
  deriving DecidableEq

namespace Transcript

/-- A command that did what it should. -/
def done (output : List Text) (notices : List Notice) : Transcript :=
  ⟨.success, output, notices⟩

/-- A command that failed, after some notices. -/
def failed (notices : List Notice) (trouble : Trouble) : Transcript :=
  ⟨trouble.exitStatus, [], notices ++ [.trouble trouble]⟩

/-- The transcript with notices before its own. -/
def after (transcript : Transcript) (notices : List Notice) : Transcript :=
  { transcript with notices := notices ++ transcript.notices }

/-- The output as it is shown. -/
def shownOutput (transcript : Transcript) (echo : Text → Text) : Text :=
  transcript.output.flatMap echo

/-- All notices as they are shown. -/
def remarks (transcript : Transcript) (echo : Text → Text) : Text :=
  transcript.notices.flatMap (·.shown echo)

end Transcript

end Keymap
