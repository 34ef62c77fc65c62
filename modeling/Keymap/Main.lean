import Keymap.Command.Arguments
import Keymap.Text.Plain

/-!
# The program

Runs the command line on the files of the machine, and shows plain text.
-/

namespace Keymap

/-- The cause that an error of the machine stands for. -/
def FileCause.ofError (error : IO.Error) (directory : Bool) : FileCause :=
  match error with
  | .noFileOrDirectory .. => .notFound
  | .permissionDenied .. => .denied
  | .invalidArgument _ 36 _ => .nameTooLong
  | .resourceExhausted _ 28 _ => .full
  | .inappropriateType .. => if directory then .isDirectory else .notDirectory
  | obstacle => if directory then .isDirectory else .other (toString obstacle).toList

/-- What stands at a path of the machine. -/
def machineStanding (path : Text) : IO Standing := do
  try
    let resolved ← IO.FS.realPath (String.ofList path)
    if ← resolved.isDir then return .directory
    return if ← resolved.pathExists then .file else .missing
  catch _ => return .missing

/-- Use a file of the machine. -/
def machineFile {α : Type} (path : Text) (action : String → IO α) : IO (Except FileFault α) := do
  try
    return .ok (← action (String.ofList path))
  catch error =>
    let directory := (← machineStanding path) == .directory
    return .error ⟨.ofError error directory, path⟩

/-- The files of the machine. -/
def machineDisk : Disk IO where
  read path := machineFile path fun name => return (← IO.FS.readBinFile name).toList
  write path bytes := machineFile path fun name => IO.FS.writeBinFile name ⟨bytes.toArray⟩

/-- The variables that settings are read from. -/
def settingNames : List String :=
  ["KMEDIT_MACRO", "KMEDIT_PLACEHOLDER", "KMEDIT_KEY_COUNT", "KMEDIT_VALIDATE_APPEND"]

/-- The settings that the machine's environment names. -/
def machineEnvironment : IO Environment :=
  settingNames.filterMapM fun name => do
    return (← IO.getEnv name).map fun word => (name.toList, word.toList)

end Keymap

open Keymap Keymap.Usual in
/-- Run a command line and show its transcript. -/
def main (arguments : List String) : IO UInt32 := do
  let transcript ← runCommandLine (readLine machineStanding) machineDisk (← machineEnvironment)
    (arguments.map String.toList)
  IO.print (String.ofList (transcript.shownOutput Text.plain))
  IO.eprint (String.ofList (transcript.remarks Text.plain))
  return transcript.exit.number.toUInt32
