import BehaviorGraph.Storage.Volume
import BehaviorGraph.Wire.Pour

/-!
# Handles

An open file with a cursor at which the next bytes go.

* `Handle.write`: one call; `Handle.put`: as many calls as it takes;
* `Handle.seek`, `Handle.seek_cases`: where the next bytes go;
* `Handle.truncateTo`: cut a file and move to its end;
* `Volume.replaceFile`, `Volume.patchFile`, `Volume.resizeFile`: changes to a named file through a
  handle of their own.
-/

namespace BehaviorGraph

/-- An open file and the position in it. -/
structure Handle where
  file : Nat
  cursor : Nat
  deriving DecidableEq

namespace Handle

/-- One write at the cursor, which moves past the bytes stored. -/
def write (bytes : List UInt8) : Handle × Volume → Except Fault Nat × (Handle × Volume)
  | (h, v) =>
    match v.write h.file h.cursor bytes with
    | (.error fault, v) => (.error fault, h, v)
    | (.ok n, v) => (.ok n, { h with cursor := h.cursor + n }, v)

/-- Write all bytes at the cursor, by as many calls as it takes. -/
def put (h : Handle) (v : Volume) (bytes : List UInt8) : Except Fault Unit × Handle × Volume :=
  let p := pour write bytes (h, v)
  (p.outcome .nothingTaken, p.state)

/-- Move the cursor. -/
def seek (h : Handle) (v : Volume) (position : Nat) : Except Fault Unit × Handle × Volume :=
  match v.seek position with
  | (.error fault, v) => (.error fault, h, v)
  | (.ok (), v) => (.ok (), { h with cursor := position }, v)

/-- A seek stays in the file. It moves the cursor to the position, or fails and leaves it. -/
theorem seek_cases (h : Handle) (v : Volume) (position : Nat) :
    (v.medium.seek v.calls position = .ok () ∧
      h.seek v position = (.ok (), ⟨h.file, position⟩, v.called)) ∨
    ∃ fault, v.medium.seek v.calls position = .error fault ∧
      h.seek v position = (.error fault, h, v.called) := by
  rw [seek, Volume.seek]
  cases v.medium.seek v.calls position with
  | error fault => exact .inr ⟨fault, rfl, rfl⟩
  | ok _ => exact .inl ⟨rfl, rfl⟩

/-- Set the length of the file, then move the cursor to its end. -/
def truncateTo (h : Handle) (v : Volume) (length : Nat) : Except Fault Unit × Handle × Volume :=
  match v.resize h.file length with
  | (.error fault, v) => (.error fault, h, v)
  | (.ok (), v) => h.seek v length

end Handle

namespace Volume

/-- Give a file new content. It is created if the location names none. -/
def replaceFile (v : Volume) (l : Location) (bytes : List UInt8) : Except Fault Unit × Volume :=
  match v.create l with
  | .error fault => (.error fault, v)
  | .ok (file, v) =>
    let (result, _, v) := Handle.put ⟨file, 0⟩ v bytes
    (result, v)

/-- Write bytes over the content of a named file. -/
def patchFile (v : Volume) (l : Location) (position : Nat) (bytes : List UInt8) :
    Except Fault Unit × Volume :=
  match v.fileAt l with
  | .error fault => (.error fault, v)
  | .ok file =>
    let (result, _, v) := Handle.put ⟨file, position⟩ v bytes
    (result, v)

/-- Set the length of a named file. -/
def resizeFile (v : Volume) (l : Location) (length : Nat) : Except Fault Unit × Volume :=
  match v.fileAt l with
  | .error fault => (.error fault, v)
  | .ok file => v.resize file length

end Volume

end BehaviorGraph
