import BehaviorGraph.Proofs.Record.RoundTrip

/-!
# The record that a node is written in again

A length that two bytes can hold is also read off four, so a node may be read off records that are
never written. What is written of it then is the record it was read off, with every length in as few
bytes as it needs.

* `Node.spelledWith`, `Node.exists_forms`: the bytes that a node was read off;
* `Node.Reencoded`, **`Node.reencoded_of_read`**: what is written of a node that was read.
-/

namespace BehaviorGraph

namespace Node

variable {bytes : List UInt8} {id : NodeId} {m : Node} {left : Source}

/-- The bytes of a node with its lengths in the given forms. -/
def spelledWith (m : Node) (front back : List UInt8) : List UInt8 :=
  front ++ m.successors.flatMap NodeId.spelling ++ back ++
    m.truths.bits.words.toList.flatMap BitSet.wordSpelling

theorem record_eq_spelledWith (m : Node) : m.record =
    m.spelledWith (Length.bytes (m.edgeCount * intsPerEdge))
      (Length.bytes m.truths.bits.wordCount) := rfl

/-- A node that was read holds what stands between two lengths. -/
theorem exists_forms (read : readNew id (.ofBytes bytes) = .ok (m, left)) :
    ∃ front back : List UInt8, Length.Form front (m.edgeCount * intsPerEdge) ∧
      Length.Form back m.truths.bits.wordCount ∧
      bytes = m.spelledWith front back ++ left.rest := by
  obtain ⟨record, edges, words, rest, form, rfl⟩ := record_of_reload (reload_of_ok read)
  obtain ⟨front, back, targets, values, ints, count, rfl, rfl, rfl⟩ := form.exists_spelled
  have same := (readFrom_ok (n := new id) (s := .ofBytes _) nofun ints count rfl).symm.trans read
  cases same
  refine ⟨front, back, ?_, count, ?_⟩
  · rwa [edgeCount, ← Edges.length_committed, Edges.committed_ofCommitted]
  · rw [spelledWith, successors, Edges.committed_ofCommitted]

theorem length_spelledWith (m : Node) (front back : List UInt8) :
    (m.spelledWith front back).length + Length.width (m.edgeCount * intsPerEdge) +
      Length.width m.truths.bits.wordCount = m.byteCount + front.length + back.length := by
  rw [← m.length_record, record_eq_spelledWith]
  simp only [spelledWith, List.length_append, Length.length_bytes]
  omega

/-- Forms no longer than those that are written make the record. -/
theorem spelledWith_eq_record {front back : List UInt8}
    (ints : Length.Form front (m.edgeCount * intsPerEdge))
    (count : Length.Form back m.truths.bits.wordCount)
    (same : m.byteCount = (m.spelledWith front back).length) :
    m.record = m.spelledWith front back := by
  have size := m.length_spelledWith front back
  have atFront := ints.length_eq
  have atBack := count.length_eq
  rw [record_eq_spelledWith, ints.eq_bytes (by omega), count.eq_bytes (by omega)]

theorem edgeCount_refilled (n m : Node) : (n.refilled m).edgeCount = m.edgeCount := by
  rw [edgeCount, refilled, ← Edges.length_committed, Edges.committed_ofCommitted, successors,
    Edges.length_committed, edgeCount]

theorem encode_refilled (n : Node) (fits : m.Fits) : (n.refilled m).encode = .ok m.record := by
  have edges := edgeCount_refilled n m
  have successors : (n.refilled m).successors = m.successors := Edges.committed_ofCommitted _
  have fits' : (n.refilled m).Fits := ⟨Nat.le_trans (Nat.le_of_eq (by rw [edges])) fits.edges,
    fits.words⟩
  rw [encode_eq fits', record, edges, successors]
  rfl

/-- What is written of a node that was read off the bytes `taken`. -/
structure Reencoded (m : Node) (taken written : List UInt8) : Prop where
  encode : m.encode = .ok written
  length : written.length = m.byteCount
  surplus : taken.length = m.byteCount ∨ taken.length = m.byteCount + 2 ∨
    taken.length = m.byteCount + 4
  /-- the same edges and words between the same lengths, which are in as few bytes as they need -/
  shortened : ∃ (front edges back words : List UInt8) (ints count : Nat),
    Length.Form front ints ∧ edges.length = 4 * ints ∧ Length.Form back count ∧
    words.length = 8 * count ∧ taken = front ++ edges ++ back ++ words ∧
    written = Length.shortened front ints ++ edges ++ Length.shortened back count ++ words
  eq_iff : written = taken ↔ m.byteCount = taken.length
  /-- what is written is read again, and then written in the same bytes -/
  again : ∀ (id : NodeId) (rest : List UInt8), ∃ m' : Node,
    readNew id (.ofBytes (written ++ rest)) = .ok (m', .ofBytes rest) ∧
    m'.successors = m.successors ∧ m'.truths.bits.words = m.truths.bits.words ∧
    m'.encode = .ok written

/-- **A node that was read is written as the record it was read off, with shortened lengths.** -/
theorem reencoded_of_read (read : readNew id (.ofBytes bytes) = .ok (m, left)) :
    ∃ taken written : List UInt8, bytes = taken ++ left.rest ∧ m.Reencoded taken written := by
  obtain ⟨front, back, ints, count, split⟩ := exists_forms read
  have fits : m.Fits := ⟨ints.le_max, count.le_max⟩
  have size := m.length_spelledWith front back
  have atFront := ints.length_eq
  have atBack := count.length_eq
  refine ⟨m.spelledWith front back, m.record, split, ?_⟩
  refine ⟨encode_eq fits, m.length_record, by omega, ?_, ⟨fun same => ?_, ?_⟩, fun other rest => ?_⟩
  · refine ⟨front, _, back, _, _, _, ints, m.length_edgeBytes, count, m.length_wordBytes, rfl, ?_⟩
    rw [ints.shortened_eq, count.shortened_eq]
    rfl
  · rw [← same, m.length_record]
  · exact spelledWith_eq_record ints count
  · refine ⟨(new other).refilled m, readFrom_record_append _ fits nofun rfl, ?_, rfl,
      encode_refilled (new other) fits⟩
    exact Edges.committed_ofCommitted _

/-- The first length stands in four bytes although it is three, and a byte follows the record. -/
theorem long_reencoded :
    let bytes : List UInt8 := [0xFF, 0xFF, 0xFF, 0xFD] ++ List.replicate 12 0x81 ++ [0, 1] ++
      List.replicate 8 0 ++ [0xAB]
    ∃ m left taken written, readNew default (.ofBytes bytes) = .ok (m, left) ∧
      left.rest = [0xAB] ∧ m.byteCount = 24 ∧ taken.length = 26 ∧ bytes = taken ++ left.rest ∧
      m.Reencoded taken written := by
  intro bytes
  let targets : List NodeId := [⟨⟨0x8181818181818181⟩, (0x81818181 : UInt32).toInt32⟩]
  let words : List UInt64 := [0]
  have ints : Length.Form [0xFF, 0xFF, 0xFF, 0xFD] (targets.length * intsPerEdge) :=
    .long (by decide) (by decide) (by decide)
  have count : Length.Form [0, 1] words.length := .short (by decide)
  have parts : (Source.ofBytes bytes).rest = [0xFF, 0xFF, 0xFF, 0xFD] ++
      targets.flatMap NodeId.spelling ++ [0, 1] ++ words.flatMap BitSet.wordSpelling ++ [0xAB] := by
    decide
  have read := readFrom_ok (n := new default) (s := .ofBytes bytes) nofun ints count parts
  obtain ⟨taken, written, split, reencoded⟩ := reencoded_of_read read
  have whole : bytes.length = taken.length + 1 :=
    (congrArg List.length split).trans List.length_append
  have size : bytes.length = 27 := by decide
  exact ⟨_, _, taken, written, read, rfl, by decide, by omega, split, reencoded⟩

end Node

end BehaviorGraph
