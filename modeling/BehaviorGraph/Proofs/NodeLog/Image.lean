import BehaviorGraph.Proofs.NodeLog.ReadPaths

/-!
# What a flushed file holds

Once its buffer is written out, the file of a log holds the records of all nodes written with
success, one behind the other, each at the offset that its write gave. Nothing that failed before
left anything between them, or after them unless the log is poisoned.

* `LaidOut`, `LaidOut.starts`, **`LaidOut.decoded`**: records in a row, and how they are read;
* `acknowledged`, **`Session.serveAll_laidOut`**: the writes that succeeded among requests in a row;
* `NodeLog.Holds.contentAt`: the file once the buffer is empty;
* `Imaged`, **`Session.serveAll_image`**: the file after every list of requests.
-/

namespace BehaviorGraph

/-! ## Records in a row -/

/-- The bytes from an offset on are the records of the nodes, each at the offset beside it. -/
inductive LaidOut : (start : Nat) → List (Nat × Node) → List UInt8 → Prop
  | nil {start : Nat} : LaidOut start [] []
  | cons {start : Nat} {n : Node} {record bytes : List UInt8} {later : List (Nat × Node)} :
    n.encode = .ok record → LaidOut (start + record.length) later bytes →
    LaidOut start ((start, n) :: later) (record ++ bytes)

namespace LaidOut

variable {start : Nat} {nodes : List (Nat × Node)} {bytes : List UInt8}

theorem starts {offset : Nat} {n : Node} (laid : LaidOut start nodes bytes)
    (there : (offset, n) ∈ nodes) :
    ∃ front record more, n.encode = .ok record ∧ bytes = front ++ (record ++ more) ∧
      start + front.length = offset := by
  induction laid with
  | nil => cases there
  | @cons start m record bytes later encoded laid ih =>
    rcases List.mem_cons.1 there with same | there
    · cases same
      exact ⟨[], record, bytes, encoded, rfl, rfl⟩
    · obtain ⟨front, record', more, encoded', split, offset⟩ := ih there
      refine ⟨record ++ front, record', more, encoded', ?_, ?_⟩
      · rw [split, List.append_assoc]
      · rw [List.length_append, ← Nat.add_assoc, offset]

/-- **Records in a row are read one after another to the last byte.** -/
theorem decoded (laid : LaidOut start nodes bytes) (ids : List NodeId)
    (same : ids.length = nodes.length) :
    ∃ read : List Node, ids.mapM Node.readNew (.ofBytes bytes) = .ok (read, .ofBytes []) ∧
      read.map Node.id = ids ∧ read.map Node.successors = nodes.map (·.2.successors) ∧
      read.map (·.truths.bits.words) = nodes.map (·.2.truths.bits.words) := by
  induction laid generalizing ids with
  | nil =>
    cases List.eq_nil_of_length_eq_zero same
    exact ⟨[], rfl, rfl, rfl, rfl⟩
  | @cons start n record bytes later encoded laid ih =>
    cases ids with
    | nil => cases same
    | cons id ids =>
      obtain ⟨read, rest, identities, successors, words⟩ := ih ids (Nat.succ.inj same)
      have fits := Node.fits_of_encode encoded
      cases (Node.encode_eq fits).symm.trans encoded
      have first : Node.readNew id (.ofBytes (n.record ++ bytes)) =
          .ok ((Node.new id).refilled n, .ofBytes bytes) :=
        Node.readFrom_record_append _ fits nofun rfl
      refine ⟨(Node.new id).refilled n :: read, ?_, ?_, ?_, ?_⟩
      · rw [List.mapM_cons, Decoder.bind_ok first, Decoder.bind_ok rest]
        rfl
      · exact congrArg (id :: ·) identities
      · rw [List.map_cons, List.map_cons, successors]
        exact congrArg (· :: _) (Edges.committed_ofCommitted _)
      · exact congrArg (n.truths.bits.words :: ·) words

end LaidOut

/-! ## Writes that succeeded -/

/-- The nodes whose writes succeeded, in order, with the offsets that were given for them. -/
def acknowledged : List Request → List Reply → List (Nat × Node)
  | .write n :: requests, .written (.ok offset) :: replies =>
    (offset, n) :: acknowledged requests replies
  | _ :: requests, _ :: replies => acknowledged requests replies
  | _, _ => []

namespace Session

variable {s : Session}

/-- The records of the nodes written with success follow those that were written before. -/
theorem serveAll_laidOut (holds : s.Holds) (requests : List Request) :
    ∃ bytes, LaidOut s.written.byteCount (acknowledged requests (s.serveAll requests).1) bytes ∧
      (s.serveAll requests).2.written.records = s.written.records ++ bytes := by
  induction requests generalizing s with
  | nil => exact ⟨[], .nil, (List.append_nil _).symm⟩
  | cons request requests ih =>
    obtain ⟨bytes, laid, records⟩ := ih (serve_holds holds request)
    cases request with
    | write n =>
      rcases NodeLog.write_spec holds n with ⟨log', v', outcome, holds', -⟩ |
        ⟨e, log', v', events, outcome, -⟩
      · simp only [serve, outcome, note] at laid records
        simp only [serveAll, serve, outcome, note]
        refine ⟨n.record ++ bytes, .cons (Node.encode_eq (holds'.fits n List.mem_cons_self)) ?_, ?_⟩
        · rw [Node.length_record]
          exact laid
        · rw [records, History.records, List.append_assoc]
      · simp only [serve, outcome, note] at laid records
        simp only [serveAll, serve, outcome, note]
        exact ⟨bytes, laid, records⟩
    | _ => exact ⟨bytes, laid, records⟩

end Session

/-! ## The file -/

namespace NodeLog

variable {log : NodeLog} {v : Volume} {h : History}

/-- With an empty buffer the file holds the records, and nothing after them unless the log is
poisoned. -/
theorem Holds.contentAt (holds : log.Holds v h) (empty : log.appender.pending = []) :
    ∃ more, v.contentAt log.location = .ok (h.records ++ more) ∧
      (log.poisoned = false → more = []) := by
  rw [Volume.contentAt, holds.named]
  have stored := holds.stored
  generalize log.poisoned = poisoned at stored
  cases stored with
  | whole _ stream =>
    rw [Appender.stream, empty, List.append_nil] at stream
    exact ⟨[], congrArg Except.ok (stream.trans (List.append_nil _).symm), fun _ => rfl⟩
  | front _ front =>
    obtain ⟨more, split⟩ := front
    exact ⟨more, congrArg Except.ok split.symm, fun sound => by cases sound⟩

theorem pending_flush (flushed : (log.flush v).result = .ok ()) :
    (log.flush v).log.appender.pending = [] := by
  rw [flush] at flushed ⊢
  rcases emptied : log.appender.flush v with ⟨fault | _, a, w⟩
  · rw [emptied] at flushed
    cases flushed
  · exact Appender.flush_rest emptied

theorem location_write (log : NodeLog) (v : Volume) (n : Node) :
    (log.write v n).log.location = log.location := by
  rw [write]
  by_cases poisoned : log.poisoned = true
  · rw [if_pos poisoned]
  rw [if_neg poisoned]
  cases n.encode with
  | error e => rfl
  | ok bytes =>
    dsimp only
    rcases log.appender.put v bytes with ⟨fault | _, a, w⟩
    · simp only [rollBack]
      rcases a.cutBack w log.bytesWritten with ⟨fault | _, a', w'⟩ <;> rfl
    · rfl

end NodeLog

/-- Bytes that are the records of nodes written at the given offsets, and nothing else. -/
structure Imaged (nodes : List (Nat × Node)) (log : NodeLog) (bytes : List UInt8) : Prop where
  laidOut : LaidOut 0 nodes bytes
  length : bytes.length = log.bytesWritten
  starts : ∀ offset n, (offset, n) ∈ nodes → ∃ record more, n.encode = .ok record ∧
    bytes.drop offset = record ++ more
  /-- records read one after another, each under any identity, are those of the nodes in order -/
  decoded : ∀ ids : List NodeId, ids.length = nodes.length →
    ∃ read : List Node, ids.mapM Node.readNew (.ofBytes bytes) = .ok (read, .ofBytes []) ∧
      read.map Node.id = ids ∧ read.map Node.successors = nodes.map (·.2.successors) ∧
      read.map (·.truths.bits.words) = nodes.map (·.2.truths.bits.words)

namespace Session

variable {s : Session}

theorem location_serveAll (s : Session) (requests : List Request) :
    (s.serveAll requests).2.log.location = s.log.location := by
  induction requests generalizing s with
  | nil => rfl
  | cons request requests ih =>
    refine (ih (s.serve request).2).trans ?_
    rcases request.write_or_not with ⟨n, rfl⟩ | reading
    · exact s.log.location_write s.volume n
    · exact (serve_passed reading).retains.location

theorem Holds.imaged (holds : s.Holds) {nodes : List (Nat × Node)}
    (laid : LaidOut 0 nodes s.written.records) : Imaged nodes s.log s.written.records where
  laidOut := laid
  length := by rw [History.length_records, holds.bytesWritten]
  starts offset n there := by
    obtain ⟨front, record, more, encoded, split, rfl⟩ := laid.starts there
    refine ⟨record, more, encoded, ?_⟩
    rw [split, Nat.zero_add, List.drop_left]
  decoded := laid.decoded

/-- **A flushed file is the records of the writes that succeeded**, at the offsets that were given.
A poisoned log may have more bytes behind them. -/
theorem serveAll_image {v w : Volume} {l : Location} {settings : Settings} {log : NodeLog}
    {events : List Event} (created : NodeLog.create v l settings = .ok (log, w, events))
    {requests : List Request} {replies : List Reply} {s : Session}
    (served : (start log w).serveAll requests = (replies, s))
    (flushed : (s.log.flush s.volume).result = .ok ()) :
    ∃ bytes more, Imaged (acknowledged requests replies) s.log bytes ∧
      (s.log.flush s.volume).volume.contentAt l = .ok (bytes ++ more) ∧
      (s.log.poisoned = false → more = []) := by
  have holds : s.Holds := by
    have all := serveAll_holds (start_holds created) requests
    rwa [served] at all
  obtain ⟨bytes, laid, records⟩ := serveAll_laidOut (start_holds created) requests
  rw [served] at laid records
  change s.written.records = [] ++ bytes at records
  rw [List.nil_append] at records
  subst records
  have kept := (NodeLog.flush_spec holds).1
  have location : (s.log.flush s.volume).log.location = l := by
    have first : log.location = l := by
      rw [NodeLog.create] at created
      split at created <;> cases created
      rfl
    have last := (start log w).location_serveAll requests
    rw [served] at last
    exact (s.log.flush_passed s.volume).retains.location.trans (last.trans first)
  obtain ⟨more, content, sound⟩ := kept.holds.contentAt (NodeLog.pending_flush flushed)
  rw [location] at content
  rw [kept.poisoned] at sound
  exact ⟨s.written.records, more, holds.imaged laid, content, sound⟩

/-- Of three writes the second finds no room. -/
theorem limited_image : ∃ log w events, createAlone (.limited 50) 8 = .ok (log, w, events) ∧
    let requests := [.write .sample, .write .sample, .write (.new default)]
    let replies := ((start log w).serveAll requests).1
    let s := ((start log w).serveAll requests).2
    (s.log.flush s.volume).result = .ok () ∧ s.log.poisoned = false ∧
      (acknowledged requests replies).map Prod.fst = [0, 32] ∧
      ∃ bytes more, Imaged (acknowledged requests replies) s.log bytes ∧
        (s.log.flush s.volume).volume.contentAt ⟨"/logs", "nodes"⟩ = .ok (bytes ++ more) ∧
        (s.log.poisoned = false → more = []) := by
  have created : createAlone (.limited 50) 8 = .ok (_, _, _) := rfl
  refine ⟨_, _, _, created, ?_⟩
  intro requests replies s
  have flushed : (s.log.flush s.volume).result = .ok () := by decide +kernel
  exact ⟨flushed, by decide +kernel, by decide +kernel, serveAll_image created rfl flushed⟩

end Session

end BehaviorGraph
