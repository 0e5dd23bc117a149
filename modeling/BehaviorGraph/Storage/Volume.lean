import BehaviorGraph.Storage.Content
import BehaviorGraph.Storage.Medium
import BehaviorGraph.Wire.Source

/-!
# Volumes

A volume holds files, and directories in which locations name files, all on one medium. A file stays
readable and writable through its handles when its name is gone.

* `Location`, `Volume`, `Volume.fileAt`, `Volume.content`;
* `Volume.create`, `Volume.openRead`, `Volume.contentAt`, `Volume.unlink`: names;
* `Volume.write`, `Volume.resize`, `Volume.seek`, `Volume.sourceAt`: single calls on a file.
-/

namespace BehaviorGraph

/-- A name in a directory. -/
structure Location where
  directory : String
  name : String
  deriving DecidableEq

/-- The location written as one text. -/
def Location.path (l : Location) : String := l.directory ++ "/" ++ l.name

/-- Files, numbered in the order they were created, with the names they go by. Every name is that of
a file. -/
structure Volume where
  medium : Medium
  directories : List String
  names : List (Location × Nat)
  files : Array (List UInt8)
  /-- the number of calls made so far -/
  calls : Nat
  names_lt : ∀ entry ∈ names, entry.2 < files.size

namespace Volume

/-- A volume with the given directories and no files. -/
def empty (medium : Medium) (directories : List String) : Volume :=
  ⟨medium, directories, [], #[], 0, nofun⟩

/-- The file that a location names. A directory is none. -/
def fileAt (v : Volume) (l : Location) : Except Fault Nat :=
  if l.path ∈ v.directories then .error (.system .isADirectory)
  else
    match v.names.lookup l with
    | some file => .ok file
    | none => .error (.system .notFound)

/-- The bytes of a file. -/
def content (v : Volume) (file : Nat) : List UInt8 := v.files.getD file []

/-- The volume after one more call. -/
def called (v : Volume) : Volume := { v with calls := v.calls + 1 }

/-- The volume with other bytes in a file. -/
def withContent (v : Volume) (file : Nat) (bytes : List UInt8) : Volume :=
  { v with
    files := v.files.setIfInBounds file bytes
    names_lt := by simpa using v.names_lt }

/-! ## Names -/

/-- Create an empty file. If the location names a file, that file is emptied instead. -/
def create (v : Volume) (l : Location) : Except Fault (Nat × Volume) :=
  match v.fileAt l with
  | .ok file => .ok (file, v.withContent file [])
  | .error (.system .notFound) =>
    if l.directory ∈ v.directories then
      let file := v.files.size
      .ok (file, { v with
        names := (l, file) :: v.names
        files := v.files.push []
        names_lt := by
          intro entry there
          rw [Array.size_push]
          rcases List.mem_cons.1 there with rfl | old
          · exact Nat.lt_succ_self _
          · exact Nat.lt_succ_of_lt (v.names_lt entry old) })
    else .error (.system .notFound)
  | .error fault => .error fault

/-- Open the file that a location names for reading. -/
def openRead (v : Volume) (l : Location) : Except Fault Nat × Volume :=
  match v.fileAt l with
  | .error fault => (.error fault, v)
  | .ok file => ((v.medium.openRead v.calls).map fun _ => file, v.called)

/-- The bytes of the file that a location names. -/
def contentAt (v : Volume) (l : Location) : Except Fault (List UInt8) :=
  (v.fileAt l).map v.content

/-- Take away the name of a file. -/
def unlink (v : Volume) (l : Location) : Except Fault Volume :=
  (v.fileAt l).map fun _ => { v with
    names := v.names.filter fun entry => entry.1 != l
    names_lt := fun entry there => v.names_lt entry (List.mem_filter.1 there).1 }

/-! ## Calls on a file -/

/-- Offer bytes to a file at a position; the answer is how many of them were stored. -/
def write (v : Volume) (file position : Nat) (bytes : List UInt8) : Except Fault Nat × Volume :=
  match v.medium.write v.calls position bytes.length with
  | .error fault => (.error fault, v.called)
  | .ok n =>
    let stored := bytes.take n
    (.ok stored.length,
      v.called.withContent file (overlay (v.content file) position stored))

/-- Set the length of a file. -/
def resize (v : Volume) (file length : Nat) : Except Fault Unit × Volume :=
  match v.medium.resize v.calls (v.content file).length length with
  | .error fault => (.error fault, v.called)
  | .ok () => (.ok (), v.called.withContent file (withLength (v.content file) length))

/-- Move to a position of a file. -/
def seek (v : Volume) (position : Nat) : Except Fault Unit × Volume :=
  (v.medium.seek v.calls position, v.called)

/-- The bytes of a file from a position on, to be read. -/
def sourceAt (v : Volume) (file position : Nat) : Source × Volume :=
  let bytes := (v.content file).drop position
  (match v.medium.breaksOff v.calls position with
    | none => .ofBytes bytes
    | some (count, fault) => ⟨bytes.take count, none, .failure fault⟩,
    v.called)

end Volume

end BehaviorGraph
