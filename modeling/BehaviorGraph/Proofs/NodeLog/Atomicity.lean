import BehaviorGraph.Proofs.NodeLog.Session

/-!
# Failed writes leave no trace

The calls on a medium may fail in any order, while older records leave the buffer, within a record
or while a torn one is cut off again. None of this is ever seen in a query or in a node that is read.

* `Session.Atomic`: what a session shows of earlier failures;
* **`Session.serveAll_atomic`**: nothing, after every list of requests.
-/

namespace BehaviorGraph

namespace Session

/-- Writes either succeed or are not seen, and what is read was written with success. -/
structure Atomic (s : Session) : Prop where
  /-- after a write that fails, every query has the answer it had before -/
  failed : ∀ n e, (s.log.write s.volume n).result = .error e →
    let log := (s.log.write s.volume n).log
    log.size = s.log.size ∧ log.keys = s.log.keys ∧
      (∀ id, log.contains id = s.log.contains id) ∧ (∀ id, log.offsetOf id = s.log.offsetOf id) ∧
      log.bytesWritten = s.log.bytesWritten
  /-- a write that succeeds continues where the last one that succeeded ended -/
  succeeded : ∀ n offset, (s.log.write s.volume n).result = .ok offset →
    let log := (s.log.write s.volume n).log
    offset = s.log.bytesWritten ∧ log.bytesWritten = offset + n.byteCount ∧
      ∀ id, log.offsetOf id = if n.id = id then some offset else s.log.offsetOf id
  read : ∀ id m, (s.log.read s.volume id).result = .ok (some m) → m.id = id ∧ s.written.IsLatest m
  require : ∀ id m, (s.log.require s.volume id).result = .ok m → m.id = id ∧ s.written.IsLatest m
  readInto : ∀ n, (s.log.readInto s.volume n).1.result = .ok true →
    let m := (s.log.readInto s.volume n).2
    m.id = n.id ∧ s.written.IsLatest m
  /-- the bytes that a node is read from are one record, written with success -/
  bytes : ∀ id offset source, s.log.offsetOf id = some offset →
    (s.log.sourceAt s.volume offset).result = .ok source →
    ∀ (n m : Node) (left : Source), n.readFrom source = .ok (m, left) →
      ∃ last, (s.written.find? fun n => n.id = id) = some last ∧
        source.rest = last.record ++ left.rest
  /-- unless the log is poisoned, the file and the buffer are the records written with success -/
  stream : s.log.poisoned = false → s.log.appender.stream s.volume = s.written.records
  /-- a poisoned log refuses every write -/
  poisoned : s.log.poisoned = true → ∀ n,
    s.log.write s.volume n = ⟨.error (.poisoned s.log.location.path), s.log, s.volume, []⟩

theorem Holds.atomic {s : Session} (holds : s.Holds) : s.Atomic where
  failed n e failed := by
    rcases NodeLog.write_spec holds n with ⟨_, _, outcome, -⟩ | ⟨_, _, _, _, outcome, -, index, -⟩
    · rw [outcome] at failed
      cases failed
    · rw [outcome]
      obtain ⟨offsets, bytesWritten⟩ := index
      exact ⟨congrArg Std.TreeMap.size offsets, congrArg Std.TreeMap.keys offsets,
        fun id => congrArg (·.contains id) offsets, fun id => congrArg (·[id]?) offsets,
        bytesWritten⟩
  succeeded n offset ok := by
    rcases NodeLog.write_spec holds n with ⟨_, _, outcome, holds', -⟩ | ⟨_, _, _, _, outcome, -⟩
    · rw [outcome] at ok ⊢
      cases ok
      refine ⟨holds.bytesWritten.symm, holds'.bytesWritten, fun id => ?_⟩
      rw [holds'.offsetOf, History.latest, apply_ite (Option.map Prod.fst), holds.offsetOf,
        Option.map_some]
    · rw [outcome] at ok
      cases ok
  read id m found := by
    obtain ⟨-, outcome | ⟨_, outcome, -⟩⟩ := NodeLog.read_spec holds id
    · exact History.isLatest_of_read (Except.ok.inj (outcome.symm.trans found))
    · cases outcome.symm.trans found
  require id m found := by
    obtain ⟨-, outcome | ⟨_, outcome, -⟩⟩ := NodeLog.require_spec holds id
    · exact History.isLatest_of_require (outcome.symm.trans found)
    · cases outcome.symm.trans found
  readInto n found := by
    obtain ⟨-, ⟨outcome, left⟩ | ⟨_, outcome, -⟩⟩ := NodeLog.readInto_spec holds n
    · dsimp only
      rw [left]
      exact History.isLatest_of_readInto (Except.ok.inj (outcome.symm.trans found))
    · cases outcome.symm.trans found
  bytes id offset source known shown n m left read := by
    cases there : s.written.latest id with
    | none => cases (NodeLog.offsetOf_none holds there).symm.trans known
    | some last =>
      cases (NodeLog.offsetOf_some holds there).symm.trans known
      obtain ⟨-, ⟨source', shown', reads⟩ | ⟨_, failed, -⟩⟩ := NodeLog.sourceAt_spec holds there
      · cases shown'.symm.trans shown
        rcases reads n with ⟨later, front, read'⟩ | ⟨_, failed, -⟩
        · cases read'.symm.trans read
          refine ⟨last.2, ?_, front⟩
          rw [← History.latest_eq_find?, there, Option.map_some]
        · cases failed.symm.trans read
      · cases failed.symm.trans shown
  stream sound := by
    have stored := holds.stored
    rw [sound] at stored
    cases stored with
    | whole _ stream => exact stream
  poisoned poisoned n := by rw [NodeLog.write, if_pos poisoned]

/-- **Failed writes leave no trace.** A node that is read is the one written last with success, made
of the bytes of its record alone. -/
theorem serveAll_atomic {v w : Volume} {l : Location} {settings : Settings} {log : NodeLog}
    {events : List Event} (created : NodeLog.create v l settings = .ok (log, w, events))
    (requests : List Request) : ((start log w).serveAll requests).2.Atomic :=
  (serveAll_holds (start_holds created) requests).atomic

/-- The second of two records finds no room. -/
theorem limited_atomic : ∃ log w events, createAlone (.limited 50) 8 = .ok (log, w, events) ∧
    let s := ((start log w).serveAll [.write .sample]).2
    (s.log.write s.volume .sample).result = .error (.fault (.system .fileTooLarge)) ∧
      ((start log w).serveAll [.write .sample, .write .sample]).2.Atomic := by
  have created : createAlone (.limited 50) 8 = .ok (_, _, _) := rfl
  exact ⟨_, _, _, created, by decide +kernel, serveAll_atomic created _⟩

end Session

end BehaviorGraph
