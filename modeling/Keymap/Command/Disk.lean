import Keymap.Text.Quoted
import Keymap.Text.Utf8

/-!
# Disks

What a command asks of a file system: the bytes of a file, and to write a file. Commands run on any
disk. What they do to files is known as soon as the disk keeps a few laws: reading changes nothing,
a write that fails changes nothing either, and one that succeeds changes only the file that the path
leads to, which holds the bytes then.
-/

namespace Keymap

/-! ## Faults -/

/-- Why a file cannot be used. -/
inductive FileCause where
  | notFound
  | denied
  | notDirectory
  | isDirectory
  | nameTooLong
  /-- The device has no room for what is written. -/
  | full
  | other (words : Text)
  deriving DecidableEq, Repr

/-- A file that cannot be used, and why. -/
structure FileFault where
  cause : FileCause
  path : Text
  deriving DecidableEq, Repr

/-- The wording of a fault. The path is told if the file could not even be opened. -/
def FileFault.message (fault : FileFault) : Text :=
  let opening (words : Text) : Text := words ++ ": ".toList ++ fault.path.quoted
  match fault.cause with
  | .notFound => opening "[Errno 2] No such file or directory".toList
  | .denied => opening "[Errno 13] Permission denied".toList
  | .notDirectory => opening "[Errno 20] Not a directory".toList
  | .isDirectory => opening "[Errno 21] Is a directory".toList
  | .full => "[Errno 28] No space left on device".toList
  | .nameTooLong => opening "[Errno 36] File name too long".toList
  | .other words => opening words

/-! ## Paths -/

/-- The parts of a path between slashes. -/
def pathParts (path : Text) : List Text :=
  path.foldr (fun c parts => match parts with
    | [] => if c = '/' then [[], []] else [[c]]
    | part :: rest => if c = '/' then [] :: part :: rest else (c :: part) :: rest) [[]]

/-- Whether a part of a path leads somewhere else. -/
def isStep (part : Text) : Bool :=
  !part.isEmpty && part != ['.']

/-- The slashes at the front of a path that stay: one of any number, but two of exactly two. -/
def pathRoot : Text → Text
  | '/' :: '/' :: '/' :: _ => ['/']
  | '/' :: '/' :: _ => ['/', '/']
  | '/' :: _ => ['/']
  | _ => []

/-- A path without the parts that lead nowhere. -/
def normalPath (path : Text) : Text :=
  let steps := ['/'].intercalate ((pathParts path).filter isStep)
  if (pathRoot path ++ steps).isEmpty then ['.'] else pathRoot path ++ steps

/-! ## Disks and their laws -/

/-- What stands at a path. A device counts as a file. -/
inductive Standing where
  | missing
  | file
  | directory
  deriving DecidableEq, Repr

/-- A file system that is used in a monad. -/
structure Disk (m : Type → Type) where
  /-- The bytes of a file. -/
  read : Text → m (Except FileFault (List UInt8))
  /-- Replace or create a file. -/
  write : Text → List UInt8 → m (Except FileFault Unit)

section

variable {World Name : Type}

/-- An action that leaves the world as it is. -/
def Idle {α : Type} (action : StateM World α) : Prop :=
  ∀ world, (action.run world).2 = world

theorem idle_pure {α : Type} (a : α) : Idle (pure a : StateM World α) :=
  fun _ => rfl

theorem Idle.bind {α β : Type} {action : StateM World α} {next : α → StateM World β}
    (h : Idle action) (hnext : ∀ a, Idle (next a)) : Idle (action >>= next) := by
  intro world
  have hrun := hnext (action.run world).1 (action.run world).2
  rw [h world] at hrun
  rw [StateT.run_bind]
  show ((next (action.run world).1).run (action.run world).2).2 = world
  rw [h world, hrun]

/-- The files of a world. -/
structure Files (World Name : Type) where
  /-- The file that a path leads to, whether or not there is one yet. A device is none. -/
  name? : World → Text → Option Name
  /-- The bytes of a file, if there is one. -/
  bytes? : World → Name → Option (List UInt8)

/-- What may be relied on when a disk is used. -/
structure Disk.Lawful (disk : Disk (StateM World)) (files : Files World Name) : Prop where
  /-- Reading changes nothing. -/
  idle_read : ∀ path, Idle (disk.read path)
  /-- A write that fails changes nothing. -/
  write_error : ∀ {path bytes fault before after},
    (disk.write path bytes).run before = (.error fault, after) → after = before
  /-- What has been written to a file is what the file holds. -/
  bytes_write : ∀ {path bytes before after name},
    (disk.write path bytes).run before = (.ok (), after) → files.name? before path = some name →
    files.bytes? after name = some bytes
  /-- Writing at a path changes no file but the one that the path leads to. -/
  bytes_write_ne : ∀ {path bytes before after name},
    (disk.write path bytes).run before = (.ok (), after) → files.name? before path ≠ some name →
    files.bytes? after name = files.bytes? before name

end

end Keymap
