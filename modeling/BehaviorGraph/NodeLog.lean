import BehaviorGraph.Record
import BehaviorGraph.Settings
import BehaviorGraph.Storage.Appender
import Std.Data.TreeMap

/-!
# Node logs

A log keeps nodes in a file: the records of all written nodes one after another, and in memory the
offset of the latest record of each identity. Nodes can so be dropped after they were built and
brought back later.

A write that fails leaves no trace: what reached the file is cut off again. If that fails, too, the
log is poisoned and refuses every later write, because offsets would no longer match the file.

* `NodeLog`, `NodeLog.create`, `NodeLog.close`;
* `NodeLog.write`, `NodeLog.flush`;
* `NodeLog.read`, `NodeLog.require`, `NodeLog.readInto`;
* `NodeLog.offsetOf`, `NodeLog.contains`, `NodeLog.keys`, `NodeLog.size`, `NodeLog.isEmpty`.
-/

namespace BehaviorGraph

/-- An append-only file of node records with its index. -/
structure NodeLog where
  location : Location
  appender : Appender
  /-- opened by the first read and kept; its cursor is where the last read began -/
  reader : Option Handle
  /-- the total size of the records written, and so the offset of the next one -/
  bytesWritten : Nat
  poisoned : Bool
  offsets : Std.TreeMap NodeId Nat

/-- What an operation on a log answers and leaves behind, and the events it reports. -/
structure Outcome (α : Type) where
  result : Except PagingError α
  log : NodeLog
  volume : Volume
  events : List Event

namespace NodeLog

/-- Create an empty log; a file that is already there is emptied. -/
def create (v : Volume) (l : Location) (settings : Settings) :
    Except PagingError (NodeLog × Volume × List Event) :=
  match v.create l with
  | .error cause => .error (.fault cause)
  | .ok (file, v) =>
    .ok ({ location := l
           appender := ⟨⟨file, 0⟩, settings.bufferBytes, []⟩
           reader := none
           bytesWritten := 0
           poisoned := false
           offsets := ∅ }, v, [.created])

/-- Close a log. Its buffer is written out if that is possible, with a second attempt if the first
fails. -/
def close (log : NodeLog) (v : Volume) : Volume :=
  let (_, a, v) := log.appender.flush v
  (a.flush v).2.2

/-! ## Writing -/

/-- Undo a write that failed: cut the file back to the records written before. If that fails, the
log is poisoned. -/
def rollBack (log : NodeLog) (v : Volume) : NodeLog × Volume × List Event :=
  match log.appender.cutBack v log.bytesWritten with
  | (.ok (), a, v) => ({ log with appender := a }, v, [])
  | (.error cause, a, v) =>
    ({ log with appender := a, poisoned := true }, v, [.rollbackFailed log.bytesWritten cause])

/-- Append the record of a node and give its offset. It takes the place of an earlier record of the
same node. -/
def write (log : NodeLog) (v : Volume) (n : Node) : Outcome Nat :=
  if log.poisoned then ⟨.error (.poisoned log.location.path), log, v, []⟩ else
    match n.encode with
    | .error e => ⟨.error e, log, v, []⟩
    | .ok bytes =>
      match log.appender.put v bytes with
      | (.error cause, a, v) =>
        let (log, v, events) := { log with appender := a }.rollBack v
        ⟨.error (.fault cause), log, v, events⟩
      | (.ok (), a, v) =>
        let log' := { log with
          appender := a
          bytesWritten := log.bytesWritten + bytes.length
          offsets := log.offsets.insert n.id log.bytesWritten }
        ⟨.ok log.bytesWritten, log', v, []⟩

/-- Write out the buffer. -/
def flush (log : NodeLog) (v : Volume) : Outcome Unit :=
  match log.appender.flush v with
  | (.error cause, a, v) => ⟨.error (.fault cause), { log with appender := a }, v, []⟩
  | (.ok (), a, v) =>
    ⟨.ok (), { log with appender := a }, v, [.flushed log.offsets.size log.bytesWritten]⟩

/-! ## Queries -/

/-- The offset of the latest record of a node. -/
def offsetOf (log : NodeLog) (id : NodeId) : Option Nat := log.offsets[id]?

/-- Whether a node was ever written. -/
def contains (log : NodeLog) (id : NodeId) : Bool := log.offsets.contains id

/-- The nodes written, in ascending order of their identities. -/
def keys (log : NodeLog) : List NodeId := log.offsets.keys

/-- The number of nodes written. -/
def size (log : NodeLog) : Nat := log.offsets.size

/-- Whether no node was written. -/
def isEmpty (log : NodeLog) : Bool := log.offsets.isEmpty

/-! ## Reading -/

/-- The handle that records are read through. -/
def openReader (log : NodeLog) (v : Volume) : Except Fault Handle × Volume :=
  match log.reader with
  | some h => (.ok h, v)
  | none =>
    match v.openRead log.location with
    | (.error cause, v) => (.error cause, v)
    | (.ok file, v) => (.ok ⟨file, 0⟩, v)

/-- The bytes of the file from an offset on. All buffered records are written out first. -/
def sourceAt (log : NodeLog) (v : Volume) (offset : Nat) : Outcome Source :=
  match log.appender.flush v with
  | (.error cause, a, v) => ⟨.error (.fault cause), { log with appender := a }, v, []⟩
  | (.ok (), a, v) =>
    match { log with appender := a }.openReader v with
    | (.error cause, v) => ⟨.error (.fault cause), { log with appender := a }, v, []⟩
    | (.ok h, v) =>
      match h.seek v offset with
      | (.error cause, h, v) =>
        ⟨.error (.fault cause), { log with appender := a, reader := some h }, v, []⟩
      | (.ok (), h, v) =>
        let (source, v) := v.sourceAt h.file h.cursor
        ⟨.ok source, { log with appender := a, reader := some h }, v, []⟩

/-- Bring a node back. A node that was never written is `none`. -/
def read (log : NodeLog) (v : Volume) (id : NodeId) : Outcome (Option Node) :=
  match log.offsetOf id with
  | none => ⟨.ok none, log, v, []⟩
  | some offset =>
    let found := log.sourceAt v offset
    { found with result := do
        let source ← found.result
        let (n, _) ← Node.readNew id source
        return some n }

/-- Bring a node back that must have been written. -/
def require (log : NodeLog) (v : Volume) (id : NodeId) : Outcome Node :=
  let found := log.read v id
  { found with result := do
      match ← found.result with
      | some n => return n
      | none => throw (.unknownNode id) }

/-- Replace the edges and truths of a node by those of its record. It stays as it is if it was never
written or reading fails. -/
def readInto (log : NodeLog) (v : Volume) (n : Node) : Outcome Bool × Node :=
  match log.offsetOf n.id with
  | none => (⟨.ok false, log, v, []⟩, n)
  | some offset =>
    let found := log.sourceAt v offset
    match found.result with
    | .error e => ({ found with result := .error e }, n)
    | .ok source =>
      let (result, n) := n.reload source
      ({ found with result := result.map fun _ => true }, n)

end NodeLog

end BehaviorGraph
