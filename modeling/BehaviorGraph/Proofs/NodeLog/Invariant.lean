import BehaviorGraph.Proofs.NodeLog.History
import BehaviorGraph.Proofs.Storage.Appending

/-!
# What a log holds

A log holds a history if its index tells the offsets of the latest records and the stream of its
appender is the records of the history. A poisoned log may have more bytes in its file.

* `NodeLog.Holds`, `NodeLog.create_holds`;
* `NodeLog.SameIndex`, `NodeLog.Kept`: steps after which the same history is held;
* **`NodeLog.write_spec`**, `NodeLog.flush_spec`, `NodeLog.openReader_spec`: single operations;
* `NodeLog.sourceAt_unflushed`, `NodeLog.sourceAt_unopened`, `NodeLog.sourceAt_opened`,
  **`NodeLog.sourceAt_spec`**: finding a record;
* `NodeLog.read_spec`, `NodeLog.require_spec`, `NodeLog.readInto_spec`: reading by identity.
-/

namespace BehaviorGraph

namespace NodeLog

variable {log log' : NodeLog} {v v' : Volume} {h : History}

/-- The log tells and stores the records of a history. -/
structure Holds (log : NodeLog) (v : Volume) (h : History) : Prop where
  named : v.fileAt log.location = .ok log.appender.handle.file
  reader : ∀ r, log.reader = some r → r.file = log.appender.handle.file
  fits : ∀ n ∈ h, n.Fits
  bytesWritten : log.bytesWritten = h.byteCount
  offsetOf : ∀ id, log.offsetOf id = (h.latest id).map Prod.fst
  stored : log.appender.Stores v h.records log.poisoned

theorem create_holds {l : Location} {settings : Settings} {events : List Event}
    (created : create v l settings = .ok (log, v', events)) :
    log.Holds v' [] ∧ log.poisoned = false ∧ v'.medium = v.medium := by
  rw [create] at created
  split at created
  · cases created
  next named =>
    cases created
    obtain ⟨fileAt, inside, content, medium⟩ := Volume.create_ok named
    refine ⟨⟨fileAt, nofun, nofun, rfl, fun id => ?_, .whole ⟨inside, ?_⟩ ?_⟩, rfl, medium⟩
    · exact Std.TreeMap.getElem?_emptyc
    · rw [content, List.length_nil]
    · rw [Appender.stream, content, List.append_nil, History.records]

/-! ## Steps that keep the history -/

/-- Both logs answer every query alike. -/
structure SameIndex (log log' : NodeLog) : Prop where
  offsets : log'.offsets = log.offsets
  bytesWritten : log'.bytesWritten = log.bytesWritten

/-- A step that is seen in no query and after which the history is still held. -/
structure Kept (log : NodeLog) (v : Volume) (h : History) (log' : NodeLog) (v' : Volume) :
    Prop where
  holds : log'.Holds v' h
  index : log.SameIndex log'
  poisoned : log'.poisoned = log.poisoned
  same : v.SameFiles v'

theorem Kept.refl (holds : log.Holds v h) : Kept log v h log v := ⟨holds, ⟨rfl, rfl⟩, rfl, .refl v⟩

/-- Another state of the appender that stores the same records. -/
theorem Holds.withAppender {a : Appender} {poisoned : Bool} (holds : log.Holds v h)
    (file : a.handle.file = log.appender.handle.file) (same : v.SameFiles v')
    (stored : a.Stores v' h.records poisoned) :
    Holds { log with appender := a, poisoned := poisoned } v' h :=
  ⟨(same.fileAt _).trans (holds.named.trans (congrArg _ file.symm)),
    fun r there => (holds.reader r there).trans file.symm, holds.fits, holds.bytesWritten,
    holds.offsetOf, stored⟩

theorem Holds.idle (holds : log.Holds v h) (idle : v.Idle v') : log.Holds v' h :=
  ⟨(idle.same.fileAt _).trans holds.named, holds.reader, holds.fits, holds.bytesWritten,
    holds.offsetOf, holds.stored.idle idle⟩

theorem Holds.withReader {r : Handle} (holds : log.Holds v h)
    (file : r.file = log.appender.handle.file) : Holds { log with reader := some r } v h :=
  ⟨holds.named, fun _ there => Option.some.inj there ▸ file, holds.fits, holds.bytesWritten,
    holds.offsetOf, holds.stored⟩

/-! ## Writing -/

theorem rollBack_spec {torn : List UInt8} {a : Appender} (holds : log.Holds v h)
    (sound : log.poisoned = false) (file : a.handle.file = log.appender.handle.file)
    (same : v.SameFiles v') (atEnd : a.handle.AtEnd v') (split : a.stream v' = h.records ++ torn)
    (whole : torn = [] ∨ a.pending = []) :
    ∃ log' w events, rollBack { log with appender := a } v' = (log', w, events) ∧
      log'.Holds w h ∧ log.SameIndex log' ∧ v.SameFiles w := by
  have length : log.bytesWritten = h.records.length := by
    rw [History.length_records, holds.bytesWritten]
  rw [rollBack]
  rcases Appender.cutBack_cases atEnd split whole with ⟨a', w, cut, file', same', stored⟩ |
    ⟨fault, a', w, cut, file', same', stored⟩
  · rw [← length] at cut
    simp only [cut]
    have holds' := holds.withAppender (file'.trans file) (same.trans same') (sound ▸ stored)
    exact ⟨_, w, _, rfl, holds', ⟨rfl, rfl⟩, same.trans same'⟩
  · rw [← length] at cut
    simp only [cut]
    have holds' := holds.withAppender (file'.trans file) (same.trans same') stored
    exact ⟨_, w, _, rfl, holds', ⟨rfl, rfl⟩, same.trans same'⟩

theorem offsetOf_insert (log : NodeLog) (offset : Nat) (written id : NodeId) :
    (log.offsets.insert written offset)[id]? =
      if written = id then some offset else log.offsetOf id := by
  rw [Std.TreeMap.getElem?_insert, offsetOf]
  exact if_congr Std.LawfulEqOrd.compare_eq_iff_eq rfl rfl

/-- The log after a write holds one more record. -/
theorem Holds.withRecord {a : Appender} {n : Node} (holds : log.Holds v h) (fits : n.Fits)
    (appended : log.appender.Appended v n.record a v')
    (stream : log.appender.stream v = h.records) :
    Holds { log with
      appender := a
      bytesWritten := log.bytesWritten + n.record.length
      offsets := log.offsets.insert n.id log.bytesWritten } v' (n :: h) := by
  have same := appended.moved.same
  refine ⟨?_, ?_, ?_, ?_, fun id => ?_, .whole appended.moved.atEnd ?_⟩
  · exact (same.fileAt _).trans (holds.named.trans (congrArg _ appended.moved.file.symm))
  · exact fun r there => (holds.reader r there).trans appended.moved.file.symm
  · exact List.forall_mem_cons.2 ⟨fits, holds.fits⟩
  · rw [holds.bytesWritten, Node.length_record, History.byteCount]
  · rw [History.latest, apply_ite (Option.map Prod.fst), ← holds.offsetOf id, Option.map_some,
      ← holds.bytesWritten]
    exact offsetOf_insert log log.bytesWritten n.id id
  · rw [appended.stream, stream, History.records]

/-- **A write appends the record of the node, or it fails and is seen in no query.** -/
theorem write_spec (holds : log.Holds v h) (n : Node) :
    (∃ log' v', log.write v n = ⟨.ok h.byteCount, log', v', []⟩ ∧ log'.Holds v' (n :: h) ∧
      log.poisoned = false ∧ log'.poisoned = false ∧ v.SameFiles v') ∨
    ∃ e log' v' events, log.write v n = ⟨.error e, log', v', events⟩ ∧ log'.Holds v' h ∧
      log.SameIndex log' ∧ v.SameFiles v' ∧
      (log.poisoned = false → n.Fits → ¬ v.medium.Unfailing) := by
  rw [write]
  by_cases poisoned : log.poisoned = true
  · rw [if_pos poisoned]
    exact .inr ⟨_, log, v, _, rfl, holds, ⟨rfl, rfl⟩, .refl v, fun sound => by
      cases sound.symm.trans poisoned⟩
  rw [if_neg poisoned]
  have sound := Bool.eq_false_iff.2 poisoned
  cases encoded : n.encode with
  | error e =>
    refine .inr ⟨e, log, v, [], rfl, holds, ⟨rfl, rfl⟩, .refl v, fun _ fits => ?_⟩
    cases (Node.encode_eq fits).symm.trans encoded
  | ok bytes =>
    have fits := Node.fits_of_encode encoded
    obtain rfl : n.record = bytes := Except.ok.inj ((Node.encode_eq fits).symm.trans encoded)
    have stored := holds.stored
    rw [sound] at stored
    cases stored with
    | whole atEnd stream =>
      rcases Appender.put_cases n.record atEnd with ⟨a, w, put, appended⟩ |
        ⟨fault, torn, a, w, put, -, appended, split, failing⟩
      · simp only [put]
        have holds' := holds.withRecord fits appended stream
        rw [← holds.bytesWritten]
        exact .inl ⟨_, w, rfl, holds', sound, sound, appended.moved.same⟩
      -- what reached the stream of the record is cut off again
      · simp only [put]
        have moved := appended.moved
        obtain ⟨log', w', events, rolled, holds', index, same⟩ := rollBack_spec holds sound
          moved.file moved.same moved.atEnd (stream ▸ appended.stream) split
        simp only [rolled]
        exact .inr ⟨_, log', w', events, rfl, holds', index, same, fun _ _ => failing⟩

/-! ## Flushing and opening -/

theorem flush_spec (holds : log.Holds v h) :
    Kept log v h (log.flush v).log (log.flush v).volume ∧
      ((log.flush v).result = .ok () ∨
        ∃ fault, (log.flush v).result = .error (.fault fault) ∧ ¬ v.medium.Unfailing) := by
  rw [flush]
  rcases holds.stored.flush_cases with ⟨a, w, flushed, file, same, stored, -⟩ |
    ⟨fault, a, w, flushed, file, same, stored, failing⟩
  · simp only [flushed]
    exact ⟨⟨holds.withAppender file same stored, ⟨rfl, rfl⟩, rfl, same⟩, .inl trivial⟩
  · simp only [flushed]
    exact ⟨⟨holds.withAppender file same stored, ⟨rfl, rfl⟩, rfl, same⟩, .inr ⟨fault, rfl, failing⟩⟩

theorem openReader_spec (holds : log.Holds v h) :
    (∃ r w, log.openReader v = (.ok r, w) ∧ r.file = log.appender.handle.file ∧ v.Idle w) ∨
    ∃ fault w, log.openReader v = (.error fault, w) ∧ v.Idle w ∧ ¬ v.medium.Unfailing := by
  rw [openReader]
  cases reader : log.reader with
  | some r => exact .inl ⟨r, v, rfl, holds.reader r reader, .refl v⟩
  | none =>
    simp only [Volume.openRead, holds.named]
    cases opened : v.medium.openRead v.calls with
    | error fault =>
      refine .inr ⟨fault, v.called, rfl, v.idle_called, fun unfailing => ?_⟩
      cases (unfailing.openRead v.calls).symm.trans opened
    | ok _ => exact .inl ⟨_, v.called, rfl, rfl, v.idle_called⟩

/-! ## Finding a record -/

/-- What a reader of the file shows from an offset on, if it can be moved there. -/
def shown (v : Volume) (file offset : Nat) : Except PagingError Source :=
  match v.medium.seek v.calls offset with
  | .error fault => .error (.fault fault)
  | .ok () => .ok (v.called.sourceAt file offset).1

/-- It shows the bytes of the file from the offset on, or a call fails. -/
theorem shown_spec {file : Nat} {front bytes : List UInt8}
    (content : v.content file = front ++ bytes) :
    (∃ source, shown v file front.length = .ok source ∧ source.chunk = none ∧
      (∃ count, source.rest = bytes.take count) ∧ (v.medium.Unfailing → source.rest = bytes)) ∨
    ∃ fault, shown v file front.length = .error (.fault fault) ∧ ¬ v.medium.Unfailing := by
  rw [shown]
  cases sought : v.medium.seek v.calls front.length with
  | error fault =>
    refine .inr ⟨fault, rfl, fun unfailing => ?_⟩
    cases (unfailing.seek v.calls front.length).symm.trans sought
  | ok _ =>
    have content' : v.called.content file = front ++ bytes := content
    obtain ⟨source, outcome, spec⟩ := Volume.sourceAt_spec content'
    simp only [outcome]
    exact .inl ⟨source, rfl, spec⟩

section SourceAt

variable {w u : Volume} {a : Appender} {fault : Fault} {r : Handle} (log : NodeLog) (offset : Nat)

theorem sourceAt_unflushed (flushed : log.appender.flush v = (.error fault, a, w)) :
    log.sourceAt v offset = ⟨.error (.fault fault), { log with appender := a }, w, []⟩ := by
  rw [sourceAt, flushed]

theorem sourceAt_unopened (flushed : log.appender.flush v = (.ok (), a, w))
    (opened : log.openReader w = (.error fault, u)) :
    log.sourceAt v offset = ⟨.error (.fault fault), { log with appender := a }, u, []⟩ := by
  have opened' : openReader { log with appender := a } w = (.error fault, u) := opened
  simp only [sourceAt, flushed, opened']

/-- The reader shows the file from the offset on, wherever it was before, or it stays there. -/
theorem sourceAt_opened (flushed : log.appender.flush v = (.ok (), a, w))
    (opened : log.openReader w = (.ok r, u)) :
    ∃ r' u', r'.file = r.file ∧ u.Idle u' ∧ log.sourceAt v offset =
      ⟨shown u r.file offset, { log with appender := a, reader := some r' }, u', []⟩ := by
  have opened' : openReader { log with appender := a } w = (.ok r, u) := opened
  rcases r.seek_cases u offset with ⟨sought, moved⟩ | ⟨fault, refused, stays⟩
  · simp only [sourceAt, flushed, opened', moved, shown, sought]
    exact ⟨⟨r.file, offset⟩, u.called.called, rfl, u.idle_called.called, rfl⟩
  · simp only [sourceAt, flushed, opened', stays, shown, refused]
    exact ⟨r, u.called, rfl, u.idle_called, rfl⟩

end SourceAt

/-- **From the offset of the latest record of an identity, this record is read, or a call fails.** -/
theorem sourceAt_spec {id : NodeId} {offset : Nat} {n : Node} (holds : log.Holds v h)
    (there : h.latest id = some (offset, n)) :
    Kept log v h (log.sourceAt v offset).log (log.sourceAt v offset).volume ∧
      ((∃ source, (log.sourceAt v offset).result = .ok source ∧ ∀ m : Node,
        (∃ later, source.rest = n.record ++ later ∧
          m.readFrom source = .ok (m.refilled n, { source with rest := later })) ∨
        ∃ fault, m.readFrom source = .error (.fault fault) ∧ ¬ v.medium.Unfailing) ∨
      ∃ fault, (log.sourceAt v offset).result = .error (.fault fault) ∧ ¬ v.medium.Unfailing) := by
  obtain ⟨front, back, split, rfl⟩ := History.records_split there
  have fits := holds.fits n (History.mem_of_latest there).1
  rcases holds.stored.flush_cases with ⟨a, w, flushed, file, same, stored, more, content⟩ |
    ⟨fault, a, w, flushed, file, same, stored, failing⟩
  · have holds' := holds.withAppender file same stored
    rcases openReader_spec holds' with ⟨r, u, opened, file', idle⟩ |
      ⟨fault, u, opened, idle, failing⟩
    · obtain ⟨r', u', stays, idle', outcome⟩ := sourceAt_opened log front.length flushed opened
      have idle'' := idle.trans idle'
      have kept : Kept log v h { log with appender := a, reader := some r' } u' :=
        ⟨(holds'.withReader (stays.trans file')).idle idle'', ⟨rfl, rfl⟩, rfl,
          same.trans idle''.same⟩
      -- behind the records there may be the rest of a torn one
      have there : u.content r.file = front ++ (n.record ++ (back ++ more)) := by
        rw [file', file, idle.content, ← content, split]
        simp only [List.append_assoc]
      have medium : u.medium = v.medium := idle.same.medium.trans same.medium
      rw [outcome]
      rcases shown_spec there with ⟨source, found, chunk, ⟨count, rest⟩, whole⟩ |
        ⟨fault, refused, failing⟩
      · refine ⟨kept, .inl ⟨source, found, fun m => ?_⟩⟩
        have moves : source.chunk ≠ some 0 := fun stuck => by cases chunk.symm.trans stuck
        rcases Node.readFrom_cut m fits moves rest with read | short
        · exact .inl read
        · refine .inr ⟨_, short, fun unfailing => ?_⟩
          rw [← medium] at unfailing
          cases (Node.readFrom_record_append m fits moves (whole unfailing)).symm.trans short
      · exact ⟨kept, .inr ⟨fault, refused, medium ▸ failing⟩⟩
    · rw [sourceAt_unopened log front.length flushed opened]
      rw [same.medium] at failing
      exact ⟨⟨holds'.idle idle, ⟨rfl, rfl⟩, rfl, same.trans idle.same⟩, .inr ⟨fault, rfl, failing⟩⟩
  · rw [sourceAt_unflushed log front.length flushed]
    exact ⟨⟨holds.withAppender file same stored, ⟨rfl, rfl⟩, rfl, same⟩, .inr ⟨fault, rfl, failing⟩⟩

/-! ## Reading -/

theorem offsetOf_none (holds : log.Holds v h) {id : NodeId} (never : h.latest id = none) :
    log.offsetOf id = none := by
  rw [holds.offsetOf, never, Option.map_none]

theorem offsetOf_some (holds : log.Holds v h) {id : NodeId} {offset : Nat} {n : Node}
    (there : h.latest id = some (offset, n)) : log.offsetOf id = some offset := by
  rw [holds.offsetOf, there, Option.map_some]

theorem read_spec (holds : log.Holds v h) (id : NodeId) :
    Kept log v h (log.read v id).log (log.read v id).volume ∧
      ((log.read v id).result = .ok (h.read id) ∨
        ∃ fault, (log.read v id).result = .error (.fault fault) ∧ ¬ v.medium.Unfailing) := by
  rw [read]
  cases there : h.latest id with
  | none =>
    rw [offsetOf_none holds there, History.read, there]
    exact ⟨.refl holds, .inl rfl⟩
  | some found =>
    rw [offsetOf_some holds there, History.read_of_latest there]
    obtain ⟨kept, ⟨source, outcome, reads⟩ | ⟨fault, outcome, failing⟩⟩ := sourceAt_spec holds there
    · rcases reads (Node.new id) with ⟨later, -, read⟩ | ⟨fault, read, failing⟩
      · refine ⟨kept, .inl ?_⟩
        simp only [outcome]
        change (do let r ← (Node.new id).readFrom source; return some r.1) = _
        rw [read]
        rfl
      · refine ⟨kept, .inr ⟨fault, ?_, failing⟩⟩
        simp only [outcome]
        change (do let r ← (Node.new id).readFrom source; return some r.1) = _
        rw [read]
        rfl
    · refine ⟨kept, .inr ⟨fault, ?_, failing⟩⟩
      simp only [outcome]
      rfl

theorem require_spec (holds : log.Holds v h) (id : NodeId) :
    Kept log v h (log.require v id).log (log.require v id).volume ∧
      ((log.require v id).result = h.require id ∨
        ∃ fault, (log.require v id).result = .error (.fault fault) ∧ ¬ v.medium.Unfailing) := by
  rw [require]
  obtain ⟨kept, found | ⟨fault, failed, failing⟩⟩ := read_spec holds id
  · refine ⟨kept, .inl ?_⟩
    simp only [found, History.require]
    cases h.read id <;> rfl
  · refine ⟨kept, .inr ⟨fault, ?_, failing⟩⟩
    simp only [failed]
    rfl

theorem readInto_spec (holds : log.Holds v h) (n : Node) :
    Kept log v h (log.readInto v n).1.log (log.readInto v n).1.volume ∧
      ((log.readInto v n).1.result = .ok (h.readInto n).1 ∧
        (log.readInto v n).2 = (h.readInto n).2 ∨
      ∃ fault, (log.readInto v n).1.result = .error (.fault fault) ∧ (log.readInto v n).2 = n ∧
        ¬ v.medium.Unfailing) := by
  rw [readInto, History.readInto]
  cases there : h.latest n.id with
  | none =>
    rw [offsetOf_none holds there]
    exact ⟨.refl holds, .inl ⟨rfl, rfl⟩⟩
  | some found =>
    rw [offsetOf_some holds there]
    obtain ⟨kept, ⟨source, outcome, reads⟩ | ⟨fault, outcome, failing⟩⟩ := sourceAt_spec holds there
    · simp only [outcome]
      rcases reads n with ⟨later, -, read⟩ | ⟨fault, read, failing⟩
      · rw [Node.reload_of_ok read]
        exact ⟨kept, .inl ⟨rfl, rfl⟩⟩
      · rw [Node.reload_of_error read]
        exact ⟨kept, .inr ⟨fault, rfl, rfl, failing⟩⟩
    · simp only [outcome]
      exact ⟨kept, .inr ⟨fault, rfl, trivial, failing⟩⟩

end NodeLog

end BehaviorGraph
