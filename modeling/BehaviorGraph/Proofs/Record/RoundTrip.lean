import BehaviorGraph.Proofs.Record.Grammar
import BehaviorGraph.Proofs.Wire.Filling

/-!
# Records there and back

A node whose edges and words can be counted in a record is written, and what is written is read as
the same edges and words again, whatever bytes follow. Reserved slots are lost on the way.

* `Node.Fits`: the edges and words can be counted;
* `Node.record`, `Node.encode_eq`, `Node.fits_of_encode`: the bytes of a node that fits;
* `Node.refilled`, **`Node.readFrom_record_append`**: a node is refilled with what was written;
* `Node.record_form`, `Node.readFrom_cut`: or the source breaks off within the record;
* `Node.writeTo_filled`: what writing leaves in a sink, whether or not it has room;
* **`Node.record_roundTrip`**: writing and reading together.
-/

namespace BehaviorGraph

/-! ## The parts that are written -/

theorem BitSet.fields_eq (s : BitSet) :
    s.fields =
      if s.wordCount ≤ Length.max then
        .ok (Length.bytes s.wordCount :: s.words.toList.map BitSet.wordSpelling)
      else .error (.lengthTooLarge s.wordCount Length.max) := by
  rw [fields, Length.encode_eq]
  split <;> rfl

theorem Edges.fields_eq (e : Edges) :
    e.fields =
      if e.count * intsPerEdge ≤ Length.max then
        .ok (Length.bytes (e.count * intsPerEdge) :: e.committed.flatMap NodeId.fields)
      else .error (.tooManyEdges (e.count * intsPerEdge)) := by
  by_cases few : e.count * intsPerEdge ≤ Length.max
  · simp only [fields, Length.encode_eq, if_pos few]
  · simp only [fields, Length.encode_eq, if_neg few]

theorem Edges.flatten_fields (targets : List NodeId) :
    (targets.flatMap NodeId.fields).flatten = targets.flatMap NodeId.spelling := by
  induction targets with
  | nil => rfl
  | cons v targets ih =>
    rw [List.flatMap_cons, List.flatten_append, ih, NodeId.flatten_fields, List.flatMap_cons]

namespace Node

/-- The edges and words of a node can be counted in a record. -/
structure Fits (n : Node) : Prop where
  edges : n.edgeCount * intsPerEdge ≤ Length.max
  words : n.truths.bits.wordCount ≤ Length.max

/-- The bytes of a node that fits. -/
def record (n : Node) : List UInt8 :=
  Length.bytes (n.edgeCount * intsPerEdge) ++ n.successors.flatMap NodeId.spelling ++
    Length.bytes n.truths.bits.wordCount ++
    n.truths.bits.words.toList.flatMap BitSet.wordSpelling

/-- The node with the edges and truths that a record keeps of `m`. -/
def refilled (n m : Node) : Node :=
  { n with edges := .ofCommitted m.successors, truths := m.truths }

variable {n : Node}

theorem edges_fields (h : n.Fits) : n.edges.fields =
    .ok (Length.bytes (n.edgeCount * intsPerEdge) :: n.successors.flatMap NodeId.fields) :=
  (Edges.fields_eq _).trans (if_pos h.edges)

theorem bits_fields (h : n.Fits) : n.truths.bits.fields =
    .ok (Length.bytes n.truths.bits.wordCount ::
      n.truths.bits.words.toList.map BitSet.wordSpelling) :=
  (BitSet.fields_eq _).trans (if_pos h.words)

theorem flatten_fields (n : Node) :
    (Length.bytes (n.edgeCount * intsPerEdge) :: n.successors.flatMap NodeId.fields).flatten ++
      (Length.bytes n.truths.bits.wordCount ::
        n.truths.bits.words.toList.map BitSet.wordSpelling).flatten = n.record := by
  rw [List.flatten_cons, List.flatten_cons, Edges.flatten_fields, ← List.flatMap_def, record,
    ← List.append_assoc]

theorem encode_eq (h : n.Fits) : n.encode = .ok n.record := by
  rw [encode, edges_fields h, bits_fields h, ← flatten_fields, ← List.flatten_append]
  rfl

theorem fits_of_encode {bytes : List UInt8} (h : n.encode = .ok bytes) : n.Fits := by
  constructor
  · refine Decidable.byContradiction fun many => ?_
    have edges := (Edges.fields_eq n.edges).trans (if_neg many)
    rw [encode, edges] at h
    cases h
  · refine Decidable.byContradiction fun many => ?_
    have bits := (BitSet.fields_eq n.truths.bits).trans (if_neg many)
    rw [encode, bits] at h
    cases edges : n.edges.fields <;> rw [edges] at h <;> cases h

theorem length_edgeBytes (n : Node) :
    (n.successors.flatMap NodeId.spelling).length = 4 * (n.edgeCount * intsPerEdge) := by
  rw [NodeId.read_spells.length_flatMap, successors, Edges.length_committed, edgeCount, intsPerEdge]
  omega

theorem length_wordBytes (n : Node) :
    (n.truths.bits.words.toList.flatMap BitSet.wordSpelling).length =
      8 * n.truths.bits.wordCount := by
  rw [BitSet.readWord_spells.length_flatMap, Array.length_toList, BitSet.wordCount, Nat.mul_comm]

@[simp] theorem length_record (n : Node) : n.record.length = n.byteCount := by
  simp only [record, byteCount, List.length_append, Length.length_bytes, length_edgeBytes,
    length_wordBytes, BitSet.byteCount]
  omega

/-- **A node is refilled with what was written.** -/
theorem readFrom_record_append {s : Source} {more : List UInt8} (m : Node) (h : n.Fits)
    (moves : s.chunk ≠ some 0) (front : s.rest = n.record ++ more) :
    m.readFrom s = .ok (m.refilled n, { s with rest := more }) := by
  have ints : Length.Form (Length.bytes (n.edgeCount * intsPerEdge))
      (n.successors.length * intsPerEdge) := by
    rw [successors, Edges.length_committed]
    exact Length.form_bytes h.edges
  have count : Length.Form (Length.bytes n.truths.bits.wordCount)
      n.truths.bits.words.toList.length := Length.form_bytes h.words
  exact readFrom_ok moves ints count front

theorem record_form (h : n.Fits) : RecordForm n.record (n.successors.flatMap NodeId.spelling)
    (n.truths.bits.words.toList.flatMap BitSet.wordSpelling) :=
  .mk (Length.form_bytes h.edges) (Nat.dvd_mul_left _ _) n.length_edgeBytes
    (Length.form_bytes h.words) n.length_wordBytes

/-- A node is refilled with what was written, unless the source breaks off within the record. -/
theorem readFrom_cut {s : Source} {more : List UInt8} {count : Nat} (m : Node) (h : n.Fits)
    (moves : s.chunk ≠ some 0) (front : s.rest = (n.record ++ more).take count) :
    (∃ later, s.rest = n.record ++ later ∧
      m.readFrom s = .ok (m.refilled n, { s with rest := later })) ∨
      m.readFrom s = .error (.fault s.ending.fault) := by
  by_cases whole : n.record.length ≤ count
  · have front' : s.rest = n.record ++ more.take (count - n.record.length) := by
      rw [front, List.take_append, List.take_of_length_le whole]
    exact .inl ⟨_, front', readFrom_record_append m h moves front'⟩
  · have short := Nat.lt_of_not_le whole
    refine .inr (readFrom_take moves (record_form h) short ?_)
    rw [front, List.take_append_of_le_length (Nat.le_of_lt short)]

/-- A node that fits is written to a sink as its record. -/
theorem writeTo_filled {s : Sink} (h : n.Fits) (moves : 0 < s.chunk) :
    n.writeTo s = ((s.verdict n.record).mapError .fault, s.filled n.record) := by
  have edges := edges_fields h
  have bits := bits_fields h
  rw [← flatten_fields]
  generalize Length.bytes (n.edgeCount * intsPerEdge) :: _ = edgeFields at edges ⊢
  generalize Length.bytes n.truths.bits.wordCount :: _ = bitFields at bits ⊢
  simp only [writeTo, edges, bits, Sink.putAll_eq edgeFields moves]
  by_cases fits : edgeFields.flatten.length ≤ s.room
  · have later := Sink.putAll_eq bitFields (s := s.filled edgeFields.flatten) moves
    rw [Sink.verdict_filled fits, Sink.filled_filled] at later
    simp only [Sink.verdict_of_le fits, later]
  · have short := Nat.lt_of_not_le fits
    rw [Sink.verdict_append_of_lt short, Sink.filled_append_of_lt short, Sink.verdict_of_lt short]
    rfl

theorem writeTo_eq {s : Sink} (h : n.Fits) (moves : 0 < s.chunk) (room : n.byteCount ≤ s.room) :
    n.writeTo s =
      (.ok (), { s with taken := s.taken ++ n.record, room := s.room - n.byteCount }) := by
  rw [← length_record] at room ⊢
  rw [writeTo_filled h moves, Sink.verdict_of_le room, Sink.filled_of_le room]
  rfl

/-- **What is written of a node is read again**, whatever follows it, with the same edges and words
and no reserved slot. -/
theorem record_roundTrip (n : Node) (h : n.Fits) (id : NodeId) (rest : List UInt8) :
    ∃ bytes, n.encode = .ok bytes ∧ bytes.length = n.byteCount ∧
      (∀ s : Sink, 0 < s.chunk → n.byteCount ≤ s.room →
        n.writeTo s =
          (.ok (), { s with taken := s.taken ++ bytes, room := s.room - n.byteCount })) ∧
      ∃ m : Node, readNew id (.ofBytes (bytes ++ rest)) = .ok (m, .ofBytes rest) ∧ m.id = id ∧
        m.successors = n.successors ∧ m.truths.bits.words = n.truths.bits.words ∧
        m.hasPending = false ∧ m.edges.reserved = 0 := by
  refine ⟨n.record, encode_eq h, length_record n, fun s => writeTo_eq h, (new id).refilled n,
    readFrom_record_append _ h nofun rfl, rfl, ?_, rfl, rfl, Edges.reserved_ofCommitted _⟩
  exact Edges.committed_ofCommitted _

/-- A node with an edge, two slots that are still reserved, and words of which the last is zero. -/
def sample : Node :=
  { id := ⟨⟨1⟩, noTableau⟩
    edges := ((Edges.empty.reserve 3).push ⟨⟨0xDEADBEEF80000001⟩, -2⟩).2
    truths := ⟨⟨#[0x8000000000000000, 0]⟩⟩ }

theorem sample_roundTrip :
    (sample.edgeCount = 1 ∧ sample.edges.reserved = 2 ∧ sample.Fits) ∧
      ∃ bytes, sample.encode = .ok bytes ∧ bytes.length = sample.byteCount ∧
        (∀ s : Sink, 0 < s.chunk → sample.byteCount ≤ s.room →
          sample.writeTo s = (.ok (),
            { s with taken := s.taken ++ bytes, room := s.room - sample.byteCount })) ∧
        ∃ m : Node, readNew default (.ofBytes (bytes ++ [0xFF])) = .ok (m, .ofBytes [0xFF]) ∧
          m.id = default ∧ m.successors = sample.successors ∧
          m.truths.bits.words = sample.truths.bits.words ∧ m.hasPending = false ∧
          m.edges.reserved = 0 := by
  have fits : sample.Fits := ⟨by decide, by decide⟩
  exact ⟨⟨by decide, by decide, fits⟩, record_roundTrip sample fits default [0xFF]⟩

end Node

end BehaviorGraph
