import BehaviorGraph.Edges.Lemmas
import BehaviorGraph.Proofs.Record.Reading

/-!
# The grammar of records

Which bytes are a record, and what becomes of all others: they stop short of a record, or they meet
a length that no record has.

* `RecordForm`: the bytes of a record with its two bodies;
* `Misaligned`, `MeetsFormless`: bytes that start with a count of no whole number of edges, and bytes
  in which the formless bytes stand for a length;
* **`Node.readFrom_cases`**: all other bytes stop short;
* **`Node.reload_outcomes`**: reloading a node succeeds on records only, tells the others apart, and
  leaves the node alone when it fails.
-/

namespace BehaviorGraph

/-! ## Records and what is none -/

/-- A record: a length that is a multiple of three, that many integers of four bytes, a length, and
that many words of eight bytes. -/
inductive RecordForm : (record edges words : List UInt8) → Prop
  | mk {front edges back words : List UInt8} {ints count : Nat} :
      Length.Form front ints → intsPerEdge ∣ ints → edges.length = 4 * ints →
      Length.Form back count → words.length = 8 * count →
      RecordForm (front ++ edges ++ back ++ words) edges words

/-- The first length is no multiple of three. -/
inductive Misaligned : (bytes : List UInt8) → (ints : Nat) → Prop
  | mk {front more : List UInt8} {ints : Nat} :
      Length.Form front ints → ¬ intsPerEdge ∣ ints → Misaligned (front ++ more) ints

/-- The formless bytes stand where a length is read. -/
inductive MeetsFormless : (bytes : List UInt8) → Prop
  | first {more : List UInt8} : MeetsFormless (Length.formless ++ more)
  | second {front edges more : List UInt8} {ints : Nat} :
      Length.Form front ints → intsPerEdge ∣ ints → edges.length = 4 * ints →
      MeetsFormless (front ++ edges ++ Length.formless ++ more)

theorem Misaligned.append {bytes : List UInt8} {ints : Nat} (h : Misaligned bytes ints)
    (more : List UInt8) : Misaligned (bytes ++ more) ints := by
  obtain ⟨form, odd⟩ := h
  rw [List.append_assoc]
  exact ⟨form, odd⟩

theorem MeetsFormless.append {bytes : List UInt8} (h : MeetsFormless bytes) (more : List UInt8) :
    MeetsFormless (bytes ++ more) := by
  cases h with
  | first =>
    rw [List.append_assoc]
    exact .first
  | second form whole size =>
    rw [List.append_assoc]
    exact .second form whole size

/-- The bodies of a record spell edges and words. -/
theorem RecordForm.exists_spelled {record edges words : List UInt8}
    (h : RecordForm record edges words) :
    ∃ (front back : List UInt8) (targets : List NodeId) (values : List UInt64),
      Length.Form front (targets.length * intsPerEdge) ∧ Length.Form back values.length ∧
      targets.flatMap NodeId.spelling = edges ∧ values.flatMap BitSet.wordSpelling = words ∧
      record = front ++ edges ++ back ++ words := by
  obtain @⟨front, _, back, _, ints, count, form, ⟨k, rfl⟩, edgeSize, form', wordSize⟩ := h
  have edgeBytes : edges.length = k * 12 := by rw [edgeSize, intsPerEdge]; omega
  have wordBytes : words.length = count * 8 := by omega
  obtain ⟨targets, rfl, spelled⟩ := NodeId.read_spells.exists_flatMap edgeBytes
  obtain ⟨values, rfl, spelled'⟩ := BitSet.readWord_spells.exists_flatMap wordBytes
  rw [Nat.mul_comm] at form
  exact ⟨front, back, targets, values, form, form', spelled, spelled', rfl⟩

namespace Node

variable {n : Node} {s : Source}

/-! ## What reading makes of each kind of bytes -/

theorem readFrom_record {record edges words rest : List UInt8} (moves : s.chunk ≠ some 0)
    (form : RecordForm record edges words) (h : s.rest = record ++ rest) :
    ∃ (targets : List NodeId) (values : List UInt64),
      targets.flatMap NodeId.spelling = edges ∧ values.flatMap BitSet.wordSpelling = words ∧
      n.readFrom s = .ok ({ n with edges := .ofCommitted targets, truths := ⟨⟨values.toArray⟩⟩ },
        { s with rest := rest }) := by
  obtain ⟨front, back, targets, values, ints, count, spelled, spelled', rfl⟩ := form.exists_spelled
  rw [← spelled, ← spelled'] at h
  exact ⟨targets, values, spelled, spelled', readFrom_ok moves ints count h⟩

theorem readFrom_misaligned {ints : Nat} (moves : s.chunk ≠ some 0)
    (h : Misaligned s.rest ints) : n.readFrom s = .error (.misaligned ints) := by
  generalize there : s.rest = bytes at h
  obtain ⟨form, odd⟩ := h
  exact readFrom_edges_error (Edges.read_misaligned moves form odd there)

theorem edges_read_ok {front edges more : List UInt8} {ints : Nat} (moves : s.chunk ≠ some 0)
    (form : Length.Form front ints) (whole : intsPerEdge ∣ ints) (size : edges.length = 4 * ints)
    (h : s.rest = front ++ (edges ++ more)) :
    ∃ e, Edges.read s = .ok (e, { s with rest := more }) := by
  obtain ⟨k, rfl⟩ := whole
  have bytes : edges.length = k * 12 := by rw [size, intsPerEdge]; omega
  obtain ⟨targets, rfl, rfl⟩ := NodeId.read_spells.exists_flatMap bytes
  rw [Nat.mul_comm] at form
  exact ⟨_, Edges.read_ok moves form h⟩

theorem readFrom_formless (moves : s.chunk ≠ some 0) (h : MeetsFormless s.rest) :
    n.readFrom s = .error (.fault .lengthOutOfRange) := by
  generalize there : s.rest = bytes at h
  cases h with
  | first => exact readFrom_edges_error (Edges.read_error (Length.read_formless moves there))
  | @second front edges more ints form whole size =>
    rw [List.append_assoc, List.append_assoc] at there
    obtain ⟨e, edges⟩ := edges_read_ok moves form whole size there
    refine readFrom_bits_error edges (BitSet.read_error ?_)
    exact Length.read_formless (s := { s with rest := Length.formless ++ more }) moves rfl

/-- The words of a record after its edges are there, or a length is formless, or bytes are lacking. -/
theorem bits_read_cases (moves : s.chunk ≠ some 0) :
    (∃ back words rest count, Length.Form back count ∧ words.length = 8 * count ∧
      s.rest = back ++ words ++ rest) ∨
      (∃ more, s.rest = Length.formless ++ more) ∨ BitSet.read s = .error s.ending.fault := by
  rcases Length.read_cases moves with ⟨back, more, count, form, h⟩ | formless | short
  · by_cases enough : 8 * count ≤ more.length
    · refine .inl ⟨back, more.take (8 * count), more.drop (8 * count), count, form, ?_, ?_⟩
      · rw [List.length_take, Nat.min_eq_left enough]
      · rw [List.append_assoc, List.take_append_drop, h]
    · exact .inr (.inr (BitSet.read_short moves form h (Nat.lt_of_not_le enough)))
  · exact .inr (.inl formless)
  · exact .inr (.inr (BitSet.read_error short))

/-- **Bytes that start with no record, have no misaligned count and meet no formless bytes stop
short.** -/
theorem readFrom_cases (n : Node) (moves : s.chunk ≠ some 0) :
    (∃ record edges words rest, RecordForm record edges words ∧ s.rest = record ++ rest) ∨
      (∃ ints, Misaligned s.rest ints) ∨ MeetsFormless s.rest ∨
      n.readFrom s = .error (.fault s.ending.fault) := by
  rcases Length.read_cases moves with ⟨front, more, ints, form, h⟩ | ⟨more, h⟩ | short
  · by_cases whole : intsPerEdge ∣ ints
    · by_cases enough : 4 * ints ≤ more.length
      · have size : (more.take (4 * ints)).length = 4 * ints := by
          rw [List.length_take, Nat.min_eq_left enough]
        rw [← List.take_append_drop (4 * ints) more] at h
        obtain ⟨e, edges⟩ := edges_read_ok moves form whole size h
        rcases bits_read_cases (s := { s with rest := more.drop (4 * ints) }) moves with
          ⟨back, words, rest, count, form', size', h'⟩ | ⟨more', h'⟩ | short
        · refine .inl ⟨_, _, words, rest, .mk form whole size form' size', ?_⟩
          rw [h, show more.drop (4 * ints) = _ from h']
          simp only [List.append_assoc]
        · refine .inr (.inr (.inl ?_))
          rw [h, show more.drop (4 * ints) = _ from h', ← List.append_assoc, ← List.append_assoc]
          exact .second form whole size
        · exact .inr (.inr (.inr (readFrom_bits_error edges short)))
      · exact .inr (.inr (.inr (readFrom_edges_error
          (Edges.read_short moves form whole h (Nat.lt_of_not_le enough)))))
    · exact .inr (.inl ⟨ints, h ▸ .mk form whole⟩)
  · exact .inr (.inr (.inl (h ▸ .first)))
  · exact .inr (.inr (.inr (readFrom_edges_error (Edges.read_error short))))

/-- A proper front part of a record stops short. -/
theorem readFrom_take {record edges words : List UInt8} {k : Nat} (moves : s.chunk ≠ some 0)
    (form : RecordForm record edges words) (cut : k < record.length)
    (h : s.rest = record.take k) : n.readFrom s = .error (.fault s.ending.fault) := by
  have all : record = s.rest ++ record.drop k := by rw [h, List.take_append_drop]
  obtain ⟨_, _, -, -, whole⟩ := readFrom_record (n := n) (s := { s with rest := record }) moves form
    (List.append_nil record).symm
  -- what the front part is other than too short, the whole record is, too
  rcases readFrom_cases n moves with ⟨front, _, _, rest, form', h'⟩ | ⟨ints, odd⟩ | formless | short
  · have longer : record = front ++ (rest ++ record.drop k) := by
      rw [← List.append_assoc, ← h', ← all]
    obtain ⟨_, _, -, -, part⟩ :=
      readFrom_record (n := n) (s := { s with rest := record }) moves form' longer
    rw [whole] at part
    have left := congrArg (fun t : Source => t.rest.length) (Prod.mk.inj (Except.ok.inj part)).2
    simp only [List.length_nil, List.length_append, List.length_drop] at left
    omega
  · have odd' := odd.append (record.drop k)
    rw [← all] at odd'
    rw [readFrom_misaligned (s := { s with rest := record }) moves odd'] at whole
    cases whole
  · have formless' := formless.append (record.drop k)
    rw [← all] at formless'
    rw [readFrom_formless (s := { s with rest := record }) moves formless'] at whole
    cases whole
  · exact short

/-! ## Reloading a node -/

theorem reload_of_ok {m : Node} {s' : Source} (h : n.readFrom s = .ok (m, s')) :
    n.reload s = (.ok s', m) := by
  rw [reload, h]

theorem reload_of_error {e : PagingError} (h : n.readFrom s = .error e) :
    n.reload s = (.error e, n) := by
  rw [reload, h]

theorem eq_of_reload_error {e : PagingError} {m : Node} (h : n.reload s = (.error e, m)) :
    m = n := by
  cases read : n.readFrom s with
  | error e' =>
    rw [reload_of_error read] at h
    exact (congrArg Prod.snd h).symm
  | ok r =>
    rw [reload_of_ok read] at h
    cases h

section Bytes

variable {bytes : List UInt8}

theorem reload_record {record edges words rest : List UInt8}
    (form : RecordForm record edges words) (h : bytes = record ++ rest) :
    ∃ m : Node, n.reload (.ofBytes bytes) = (.ok (.ofBytes rest), m) ∧ m.id = n.id ∧
      m.successors.flatMap NodeId.spelling = edges ∧
      m.truths.bits.words.toList.flatMap BitSet.wordSpelling = words ∧
      m.edges.reserved = 0 ∧ m.hasPending = false := by
  obtain ⟨targets, values, spelled, spelled', read⟩ :=
    readFrom_record (n := n) (s := .ofBytes bytes) nofun form h
  refine ⟨_, reload_of_ok read, rfl, ?_, spelled', Edges.reserved_ofCommitted _, rfl⟩
  rw [successors, Edges.committed_ofCommitted, spelled]

theorem reload_misaligned {ints : Nat} (h : Misaligned bytes ints) :
    n.reload (.ofBytes bytes) = (.error (.misaligned ints), n) :=
  reload_of_error (readFrom_misaligned nofun h)

theorem reload_formless (h : MeetsFormless bytes) :
    n.reload (.ofBytes bytes) = (.error (.fault .lengthOutOfRange), n) :=
  reload_of_error (readFrom_formless nofun h)

theorem reload_take {record edges words : List UInt8} (form : RecordForm record edges words)
    {k : Nat} (cut : k < record.length) :
    n.reload (.ofBytes (record.take k)) = (.error (.fault .endOfInput), n) :=
  reload_of_error (readFrom_take nofun form cut rfl)

/-- The four kinds of bytes with what becomes of each. -/
theorem reload_cases (n : Node) (bytes : List UInt8) :
    (∃ record edges words rest m, RecordForm record edges words ∧ bytes = record ++ rest ∧
      n.reload (.ofBytes bytes) = (.ok (.ofBytes rest), m)) ∨
    (∃ ints, Misaligned bytes ints ∧
      n.reload (.ofBytes bytes) = (.error (.misaligned ints), n)) ∨
    MeetsFormless bytes ∧ n.reload (.ofBytes bytes) = (.error (.fault .lengthOutOfRange), n) ∨
    n.reload (.ofBytes bytes) = (.error (.fault .endOfInput), n) := by
  rcases readFrom_cases n (s := .ofBytes bytes) nofun with ⟨record, edges, words, rest, form, h⟩ |
    ⟨ints, odd⟩ | formless | short
  · obtain ⟨m, outcome, -⟩ := reload_record (n := n) form h
    exact .inl ⟨record, edges, words, rest, m, form, h, outcome⟩
  · exact .inr (.inl ⟨ints, odd, reload_misaligned odd⟩)
  · exact .inr (.inr (.inl ⟨formless, reload_formless formless⟩))
  · exact .inr (.inr (.inr (reload_of_error short)))

theorem record_of_reload {left : Source} {m : Node}
    (outcome : n.reload (.ofBytes bytes) = (.ok left, m)) :
    ∃ record edges words rest, RecordForm record edges words ∧ bytes = record ++ rest := by
  rcases reload_cases n bytes with ⟨record, edges, words, rest, _, form, h, -⟩ | ⟨_, -, failed⟩ |
    ⟨-, failed⟩ | failed
  · exact ⟨record, edges, words, rest, form, h⟩
  all_goals cases failed.symm.trans outcome

theorem misaligned_of_reload {ints : Nat}
    (outcome : n.reload (.ofBytes bytes) = (.error (.misaligned ints), n)) :
    Misaligned bytes ints := by
  rcases reload_cases n bytes with ⟨_, _, _, _, _, -, -, other⟩ | ⟨ints', odd, other⟩ |
    ⟨-, other⟩ | other
  all_goals cases other.symm.trans outcome
  exact odd

theorem formless_of_reload
    (outcome : n.reload (.ofBytes bytes) = (.error (.fault .lengthOutOfRange), n)) :
    MeetsFormless bytes := by
  rcases reload_cases n bytes with ⟨_, _, _, _, _, -, -, other⟩ | ⟨_, -, other⟩ |
    ⟨formless, -⟩ | other
  case inr.inr.inl => exact formless
  all_goals cases other.symm.trans outcome

theorem reload_short_iff :
    n.reload (.ofBytes bytes) = (.error (.fault .endOfInput), n) ↔
      (¬ ∃ record edges words rest, RecordForm record edges words ∧ bytes = record ++ rest) ∧
        (¬ ∃ ints, Misaligned bytes ints) ∧ ¬ MeetsFormless bytes := by
  constructor
  · intro short
    refine ⟨?_, ?_, ?_⟩
    · rintro ⟨record, edges, words, rest, form, h⟩
      obtain ⟨m, other, -⟩ := reload_record (n := n) form h
      cases other.symm.trans short
    · rintro ⟨ints, odd⟩
      cases (reload_misaligned odd).symm.trans short
    · intro formless
      cases (reload_formless formless).symm.trans short
  · rintro ⟨noRecord, noOdd, noFormless⟩
    rcases reload_cases n bytes with ⟨record, edges, words, rest, _, form, h, -⟩ | ⟨ints, odd, -⟩ |
      ⟨formless, -⟩ | short
    · exact absurd ⟨record, edges, words, rest, form, h⟩ noRecord
    · exact absurd ⟨ints, odd⟩ noOdd
    · exact absurd formless noFormless
    · exact short

end Bytes

/-- **Reloading a node succeeds exactly on bytes that start with a record, and takes no more of
them.** A failure leaves the node as it was. -/
theorem reload_outcomes (n : Node) (bytes : List UInt8) :
    ((∃ left m, n.reload (.ofBytes bytes) = (.ok left, m)) ↔
      ∃ record edges words rest, RecordForm record edges words ∧ bytes = record ++ rest) ∧
    (∀ record edges words rest, RecordForm record edges words → bytes = record ++ rest →
      ∃ m : Node, n.reload (.ofBytes bytes) = (.ok (.ofBytes rest), m) ∧ m.id = n.id ∧
        m.successors.flatMap NodeId.spelling = edges ∧
        m.truths.bits.words.toList.flatMap BitSet.wordSpelling = words ∧
        m.edges.reserved = 0 ∧ m.hasPending = false) ∧
    (∀ ints, n.reload (.ofBytes bytes) = (.error (.misaligned ints), n) ↔
      Misaligned bytes ints) ∧
    (n.reload (.ofBytes bytes) = (.error (.fault .lengthOutOfRange), n) ↔
      MeetsFormless bytes) ∧
    (n.reload (.ofBytes bytes) = (.error (.fault .endOfInput), n) ↔
      (¬ ∃ record edges words rest, RecordForm record edges words ∧ bytes = record ++ rest) ∧
        (¬ ∃ ints, Misaligned bytes ints) ∧ ¬ MeetsFormless bytes) ∧
    (∀ record edges words, RecordForm record edges words → ∀ k < record.length,
      n.reload (.ofBytes (record.take k)) = (.error (.fault .endOfInput), n)) ∧
    ∀ e m, n.reload (.ofBytes bytes) = (.error e, m) → m = n := by
  refine ⟨⟨fun ⟨_, _, outcome⟩ => record_of_reload outcome, ?_⟩, fun _ _ _ _ => reload_record,
    fun ints => ⟨misaligned_of_reload, reload_misaligned⟩, ⟨formless_of_reload, reload_formless⟩,
    reload_short_iff, fun _ _ _ form _ => reload_take form, fun _ _ => eq_of_reload_error⟩
  rintro ⟨record, edges, words, rest, form, h⟩
  obtain ⟨m, outcome, -⟩ := reload_record (n := n) form h
  exact ⟨_, m, outcome⟩

end Node

end BehaviorGraph
