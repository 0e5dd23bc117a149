import BehaviorGraph.Proofs.NodeLog.Invariant

/-!
# Sessions with a log

A log is asked one thing after another, on a medium that may fail in any call. Whatever happens, it
holds the nodes whose writes succeeded.

* `Session`, `Session.serve`, `Session.serveAll`;
* **`Session.serveAll_holds`**: the log holds what was written, after every list of requests;
* `NodeLog.Describes`, `NodeLog.Holds.describes`: the queries tell what was written.
-/

namespace BehaviorGraph

/-- A log in use with its volume, and the nodes whose writes succeeded, the latest first. -/
structure Session where
  log : NodeLog
  volume : Volume
  written : History

namespace Session

/-- A log to which nothing was written yet. -/
def start (log : NodeLog) (v : Volume) : Session := ⟨log, v, []⟩

/-- A new log in the only directory of an empty volume. -/
def createAlone (m : Medium) (bufferBytes : Nat) :
    Except PagingError (NodeLog × Volume × List Event) :=
  NodeLog.create (.empty m ["/logs"]) ⟨"/logs", "nodes"⟩ { bufferBytes := bufferBytes }

/-- The nodes written after one more write. -/
def note (written : History) (n : Node) : Except PagingError Nat → History
  | .ok _ => n :: written
  | .error _ => written

/-- The reply to a request and the session afterwards. -/
def serve (s : Session) : Request → Reply × Session
  | .write n =>
    let done := s.log.write s.volume n
    (.written done.result, ⟨done.log, done.volume, note s.written n done.result⟩)
  | .read id =>
    let done := s.log.read s.volume id
    (.found done.result, ⟨done.log, done.volume, s.written⟩)
  | .require id =>
    let done := s.log.require s.volume id
    (.required done.result, ⟨done.log, done.volume, s.written⟩)
  | .readInto n =>
    let (done, n) := s.log.readInto s.volume n
    (.reloaded done.result n, ⟨done.log, done.volume, s.written⟩)
  | .flush =>
    let done := s.log.flush s.volume
    (.flushed done.result, ⟨done.log, done.volume, s.written⟩)

/-- The replies to requests in a row. -/
def serveAll (s : Session) : List Request → List Reply × Session
  | [] => ([], s)
  | request :: requests =>
    let (reply, s) := s.serve request
    let (replies, s) := s.serveAll requests
    (reply :: replies, s)

/-- The log holds what was written. -/
def Holds (s : Session) : Prop := s.log.Holds s.volume s.written

variable {s : Session}

theorem start_holds {v w : Volume} {l : Location} {settings : Settings} {log : NodeLog}
    {events : List Event} (created : NodeLog.create v l settings = .ok (log, w, events)) :
    (start log w).Holds := (NodeLog.create_holds created).1

theorem serve_holds (holds : s.Holds) (request : Request) : (s.serve request).2.Holds := by
  cases request with
  | write n =>
    rcases NodeLog.write_spec holds n with ⟨log', v', outcome, holds', -⟩ |
      ⟨e, log', v', events, outcome, holds', -⟩
    · simp only [serve, outcome]
      exact holds'
    · simp only [serve, outcome]
      exact holds'
  | read id => exact (NodeLog.read_spec holds id).1.holds
  | require id => exact (NodeLog.require_spec holds id).1.holds
  | readInto n => exact (NodeLog.readInto_spec holds n).1.holds
  | flush => exact (NodeLog.flush_spec holds).1.holds

/-- **After every list of requests the log holds what was written.** -/
theorem serveAll_holds (holds : s.Holds) (requests : List Request) :
    (s.serveAll requests).2.Holds := by
  induction requests generalizing s with
  | nil => exact holds
  | cons request requests ih => exact ih (serve_holds holds request)

end Session

/-! ## Queries -/

/-- The queries of a log tell what was written. -/
structure NodeLog.Describes (log : NodeLog) (h : History) : Prop where
  offsetOf : ∀ id, log.offsetOf id = (h.latest id).map Prod.fst
  contains : ∀ id, log.contains id = true ↔ ∃ n ∈ h, n.id = id
  keys : ∀ id, id ∈ log.keys ↔ ∃ n ∈ h, n.id = id
  nodup : log.keys.Nodup
  size : log.size = log.keys.length
  bytesWritten : log.bytesWritten = h.byteCount

theorem NodeLog.Holds.isSome_offset {log : NodeLog} {v : Volume} {h : History}
    (holds : log.Holds v h) (id : NodeId) :
    log.offsets[id]?.isSome = true ↔ ∃ n ∈ h, n.id = id := by
  change (log.offsetOf id).isSome = true ↔ _
  rw [holds.offsetOf, Option.isSome_map, History.isSome_latest]

theorem NodeLog.Holds.describes {log : NodeLog} {v : Volume} {h : History}
    (holds : log.Holds v h) : log.Describes h where
  offsetOf := holds.offsetOf
  contains id := by
    rw [NodeLog.contains, Std.TreeMap.contains_eq_isSome_getElem?]
    exact holds.isSome_offset id
  keys id := by
    rw [NodeLog.keys, Std.TreeMap.mem_keys, Std.TreeMap.mem_iff_isSome_getElem?]
    exact holds.isSome_offset id
  nodup := Std.TreeMap.nodup_keys
  size := Std.TreeMap.length_keys.symm
  bytesWritten := holds.bytesWritten

end BehaviorGraph
