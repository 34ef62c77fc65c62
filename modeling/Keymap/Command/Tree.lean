import Keymap.Command.Disk

/-!
# Trees

A file system in memory: the directories, files and devices of a machine, each under the parts of
its path from the root. Paths that do not begin at the root begin in a directory of the tree. There
are no links.

## Key results

- `Tree.lawful` — a tree is a lawful disk
-/

namespace Keymap

/-- What stands under a name. -/
inductive Entry where
  | directory
  | file (bytes : List UInt8)
  /-- The device that is empty and forgets what is written. -/
  | nullDevice
  /-- The device that has no room. -/
  | fullDevice
  deriving DecidableEq, Repr

/-- A file system in memory. -/
structure Tree where
  /-- What there is below the root. -/
  entries : List (List Text × Entry)
  /-- Where paths begin that do not begin at the root. -/
  directory : List Text
  /-- How many bytes a path may have. -/
  pathLimit : Nat
  /-- How many bytes a part of a path may have. -/
  partLimit : Nat
  deriving DecidableEq, Repr

/-- Where a path leads. -/
inductive Place where
  /-- Something that is there. -/
  | found (name : List Text) (entry : Entry)
  /-- Nothing, in a directory. -/
  | free (name : List Text)
  /-- Nothing, in no directory. -/
  | nowhere
  /-- Beyond something that is no directory. -/
  | blocked
  /-- Nothing, since no path is that long. -/
  | tooLong
  deriving DecidableEq, Repr

/-- The file of a place, whether or not there is one yet. -/
def Place.file? : Place → Option (List Text)
  | .found name (.file _) | .free name => some name
  | _ => none

/-- Whether a text has more bytes than admitted. -/
def isLonger (text : Text) (bytes : Nat) : Bool :=
  bytes < (Utf8.encode text).length

namespace Tree

variable {tree : Tree}

/-! ## Places -/

/-- Follow the parts of a path from a directory. The root lies above itself. -/
def follow (tree : Tree) (spot : List Text) : List Text → Place
  | [] => .found spot .directory
  | part :: rest =>
    if part = "..".toList then tree.follow spot.dropLast rest
    else if !isStep part then tree.follow spot rest
    else if isLonger part tree.partLimit then .tooLong
    else match tree.entries.lookup (spot ++ [part]), rest with
      | some .directory, rest => tree.follow (spot ++ [part]) rest
      | some entry, [] => .found (spot ++ [part]) entry
      | some _, _ :: _ => .blocked
      | none, [] => .free (spot ++ [part])
      | none, _ :: _ => .nowhere

/-- Where a path leads. -/
def place (tree : Tree) (path : Text) : Place :=
  if isLonger path tree.pathLimit then .tooLong
  else match path with
    | [] => .nowhere
    | '/' :: _ => tree.follow [] (pathParts path)
    | _ => tree.follow tree.directory (pathParts path)

/-! ## Reading and writing -/

/-- The entries with one replaced, or put behind the others. -/
def put (entries : List (List Text × Entry)) (name : List Text) (entry : Entry) :
    List (List Text × Entry) :=
  match entries with
  | [] => [(name, entry)]
  | first :: rest =>
    if first.1 = name then (name, entry) :: rest else first :: put rest name entry

/-- The bytes of the file at a path. The full device has no end, and is not read. -/
def readFile (tree : Tree) (path : Text) : Except FileFault (List UInt8) :=
  match tree.place path with
  | .found _ (.file bytes) => .ok bytes
  | .found _ .nullDevice | .found _ .fullDevice => .ok []
  | .found _ .directory => .error ⟨.isDirectory, path⟩
  | .free _ | .nowhere => .error ⟨.notFound, path⟩
  | .blocked => .error ⟨.notDirectory, path⟩
  | .tooLong => .error ⟨.nameTooLong, path⟩

/-- The tree after a file was written at a path. -/
def writeFile (tree : Tree) (path : Text) (bytes : List UInt8) : Except FileFault Tree :=
  match tree.place path with
  | .found name (.file _) | .free name =>
    .ok { tree with entries := put tree.entries name (.file bytes) }
  | .found _ .nullDevice => .ok tree
  | .found _ .fullDevice => if bytes.isEmpty then .ok tree else .error ⟨.full, path⟩
  | .found _ .directory => .error ⟨.isDirectory, path⟩
  | .nowhere => .error ⟨.notFound, path⟩
  | .blocked => .error ⟨.notDirectory, path⟩
  | .tooLong => .error ⟨.nameTooLong, path⟩

/-- What stands at a path of a tree. -/
def standing (path : Text) : StateM Tree Standing :=
  return match (← get).place path with
    | .found _ .directory => .directory
    | .found .. => .file
    | _ => .missing

/-- The file system that a tree is. -/
def disk : Disk (StateM Tree) where
  read path := return (← get).readFile path
  write path bytes := do
    match (← get).writeFile path bytes with
    | .ok tree => set tree; return .ok ()
    | .error fault => return .error fault

/-- The files of a tree. -/
def files : Files Tree (List Text) where
  name? tree path := (tree.place path).file?
  bytes? tree name :=
    match tree.entries.lookup name with
    | some (.file bytes) => some bytes
    | _ => none

/-! ## Laws -/

/-- What was put somewhere is what is there. -/
theorem lookup_put (entries : List (List Text × Entry)) (name : List Text) (entry : Entry) :
    (put entries name entry).lookup name = some entry := by
  induction entries with
  | nil => simp [put]
  | cons first rest ih =>
    obtain ⟨key, value⟩ := first
    by_cases h : key = name
    · simp [put, h]
    · have hne : (name == key) = false := beq_eq_false_iff_ne.mpr (Ne.symm h)
      simp [put, h, List.lookup_cons, hne, ih]

/-- Elsewhere there is what was there before. -/
theorem lookup_put_ne (entries : List (List Text × Entry)) {name other : List Text} (entry : Entry)
    (h : other ≠ name) : (put entries name entry).lookup other = entries.lookup other := by
  have hne : (other == name) = false := beq_eq_false_iff_ne.mpr h
  induction entries with
  | nil => simp [put, List.lookup_cons, hne]
  | cons first rest ih =>
    obtain ⟨key, value⟩ := first
    by_cases hk : key = name
    · simp [put, hk, List.lookup_cons, hne]
    · simp [put, hk, List.lookup_cons, ih]

/-- Writing a file changes a tree unless there is a fault. -/
theorem run_write (tree : Tree) (path : Text) (bytes : List UInt8) :
    (disk.write path bytes).run tree =
      match tree.writeFile path bytes with
      | .error fault => (.error fault, tree)
      | .ok after => (.ok (), after) := by
  dsimp only [disk]
  rw [StateT.run_bind, StateT.run_get]
  dsimp only [bind, pure]
  cases tree.writeFile path bytes <;> rfl

/-- A tree is written to where a file is or might be, and otherwise stays as it is. -/
theorem eq_of_writeFile {path : Text} {bytes : List UInt8} {after : Tree}
    (h : tree.writeFile path bytes = .ok after) :
    after = match (tree.place path).file? with
      | some name => { tree with entries := put tree.entries name (.file bytes) }
      | none => tree := by
  rw [writeFile] at h
  cases hplace : tree.place path with
  | found name entry =>
    rw [hplace] at h
    cases entry with
    | directory => cases h
    | file _ | nullDevice => exact (Except.ok.inj h).symm
    | fullDevice =>
      -- The full device takes nothing but an empty text.
      dsimp only at h
      split at h
      · exact (Except.ok.inj h).symm
      · cases h
  | free name =>
    rw [hplace] at h
    exact (Except.ok.inj h).symm
  | nowhere | blocked | tooLong =>
    rw [hplace] at h
    cases h

/-- A tree is a lawful disk. -/
theorem lawful : disk.Lawful files where
  idle_read _ _ := rfl
  write_error := by
    intro path bytes fault before after h
    rw [run_write] at h
    split at h
    · exact (Prod.mk.inj h).2.symm
    · cases (Prod.mk.inj h).1
  bytes_write := by
    intro path bytes before after name h hname
    rw [run_write] at h
    split at h
    · cases (Prod.mk.inj h).1
    · rename_i hwrite
      obtain rfl := (Prod.mk.inj h).2
      have hfile : (before.place path).file? = some name := hname
      -- The file that was written is the one that the path leads to.
      rw [eq_of_writeFile hwrite, hfile]
      simp only [files, lookup_put]
  bytes_write_ne := by
    intro path bytes before after name h hname
    rw [run_write] at h
    -- Only the entry under the path's own name is put; a device takes the bytes and puts nothing.
    split at h
    · cases (Prod.mk.inj h).1
    · rename_i hwrite
      obtain rfl := (Prod.mk.inj h).2
      rw [eq_of_writeFile hwrite]
      split
      · rename_i other hother
        have hne : name ≠ other := fun heq => hname (heq ▸ hother)
        simp only [files, lookup_put_ne _ _ hne]
      · rfl

end Tree

end Keymap
