import BehaviorGraph.Proofs.Record.Grammar

/-!
# Records that arrive in parts

A source may deliver a record in parts that end anywhere, within a length as well as within an edge or
a word, and it may fail where another one reports the end of the input. What is read is decided by the
bytes alone, and the ending only shows in a reading that needs more bytes than there are.

* `Source.inParts`: the bytes of a source in small parts, with an ending of its own;
* `PagingError.endingIn`: the fault of such an ending in place of the end of the input;
* `Node.readFrom_decided`, `Node.reload_eq`: how a reading ends, for all sources with the same bytes;
* **`Node.reload_inParts`**: reloading a node off all bytes at once and off parts of them.
-/

namespace BehaviorGraph

namespace Source

/-- The bytes of the source, of which a call delivers at most `chunk`, and another ending. -/
def inParts (s : Source) (chunk : Nat) (ending : Ending) : Source :=
  { s with chunk := some chunk, ending := ending }

theorem inParts_moves (s : Source) {chunk : Nat} (positive : 0 < chunk) (ending : Ending) :
    (s.inParts chunk ending).chunk ≠ some 0 := by
  intro zero
  cases zero
  exact Nat.lt_irrefl 0 positive

end Source

namespace PagingError

/-- The error of a reading off a source with the given ending, if it is `e` off one that reports the
end of the input. -/
def endingIn (ending : Ending) (e : PagingError) : PagingError :=
  if e = .fault .endOfInput then .fault ending.fault else e

@[simp] theorem endingIn_endOfInput (ending : Ending) :
    endingIn ending (.fault .endOfInput) = .fault ending.fault := if_pos rfl

theorem endingIn_of_ne {e : PagingError} (ending : Ending) (other : e ≠ .fault .endOfInput) :
    endingIn ending e = e := if_neg other

@[simp] theorem endingIn_same (e : PagingError) : endingIn .endOfInput e = e := by
  by_cases short : e = .fault .endOfInput
  · rw [short, endingIn_endOfInput]
    rfl
  · exact endingIn_of_ne _ short

end PagingError

namespace Node

/-- **The bytes decide how a reading ends.** If it runs out of them, it ends as the source does. -/
theorem readFrom_decided (n : Node) (bytes : List UInt8) :
    (∃ m left, ∀ s : Source, s.chunk ≠ some 0 → s.rest = bytes →
      n.readFrom s = .ok (m, { s with rest := left })) ∨
    (∃ e, e ≠ .fault .endOfInput ∧ ∀ s : Source, s.chunk ≠ some 0 → s.rest = bytes →
      n.readFrom s = .error e) ∨
    ∀ s : Source, s.chunk ≠ some 0 → s.rest = bytes →
      n.readFrom s = .error (.fault s.ending.fault) := by
  have moves := Source.ofBytes_moves bytes
  rcases readFrom_cases n moves with ⟨record, edges, words, left, form, split⟩ | ⟨ints, odd⟩ |
    formless | short
  · left
    obtain ⟨front, back, targets, values, ints, count, rfl, rfl, rfl⟩ := form.exists_spelled
    refine ⟨{ n with edges := .ofCommitted targets, truths := ⟨⟨values.toArray⟩⟩ }, left, ?_⟩
    intro s moves rest
    exact readFrom_ok moves ints count (rest.trans split)
  · refine .inr (.inl ⟨.misaligned ints, by simp, ?_⟩)
    intro s moves rest
    exact readFrom_misaligned moves (by rw [rest]; exact odd)
  · refine .inr (.inl ⟨.fault .lengthOutOfRange, by simp, ?_⟩)
    intro s moves rest
    exact readFrom_formless moves (by rw [rest]; exact formless)
  · right; right
    intro s moves' rest
    -- were the bytes anything but too few, the source that holds them all would not run out of them
    rcases readFrom_cases n moves' with ⟨record, edges, words, left, form, split⟩ | ⟨ints, odd⟩ |
      formless | short'
    · rw [rest] at split
      obtain ⟨_, _, -, -, whole⟩ := readFrom_record (n := n) moves form split
      cases whole.symm.trans short
    · rw [rest] at odd
      cases (readFrom_misaligned (n := n) moves odd).symm.trans short
    · rw [rest] at formless
      cases (readFrom_formless (n := n) moves formless).symm.trans short
    · exact short'

/-- What a reload comes to, in terms of the source that holds all the bytes. -/
theorem reload_eq (n : Node) {s : Source} (moves : s.chunk ≠ some 0) :
    n.reload s =
      (((n.reload (.ofBytes s.rest)).1.mapError (.endingIn s.ending)).map
        fun left => { s with rest := left.rest }, (n.reload (.ofBytes s.rest)).2) := by
  have moves' := Source.ofBytes_moves s.rest
  rcases n.readFrom_decided s.rest with ⟨m, left, read⟩ | ⟨e, other, refused⟩ | short
  · rw [reload_of_ok (read s moves rfl), reload_of_ok (read _ moves' rfl)]
    rfl
  · rw [reload_of_error (refused s moves rfl), reload_of_error (refused _ moves' rfl)]
    simp only [Except.mapError, PagingError.endingIn_of_ne s.ending other]
    rfl
  · rw [reload_of_error (short s moves rfl), reload_of_error (short _ moves' rfl)]
    simp only [Except.mapError, Source.ofBytes, Ending.fault, PagingError.endingIn_endOfInput]
    rfl

/-- **A record is read alike at once and in parts.** A source that fails changes the end of input to
its fault, and nothing else. -/
theorem reload_inParts (n : Node) (bytes : List UInt8) {chunk : Nat} (positive : 0 < chunk) :
    n.reload ((Source.ofBytes bytes).inParts chunk .endOfInput) =
      ((n.reload (.ofBytes bytes)).1.map (·.inParts chunk .endOfInput),
        (n.reload (.ofBytes bytes)).2) ∧
    ∀ fault : Fault,
      (∀ left m, n.reload (.ofBytes bytes) = (.ok left, m) →
        n.reload ((Source.ofBytes bytes).inParts chunk (.failure fault)) =
          (.ok (left.inParts chunk (.failure fault)), m)) ∧
      (∀ m, n.reload (.ofBytes bytes) = (.error (.fault .endOfInput), m) →
        n.reload ((Source.ofBytes bytes).inParts chunk (.failure fault)) =
          (.error (.fault fault), n)) ∧
      ∀ e m, n.reload (.ofBytes bytes) = (.error e, m) → e ≠ .fault .endOfInput →
        n.reload ((Source.ofBytes bytes).inParts chunk (.failure fault)) = (.error e, n) := by
  have parts (ending : Ending) :=
    n.reload_eq ((Source.ofBytes bytes).inParts_moves positive ending)
  simp only [Source.inParts, Source.ofBytes] at parts ⊢
  refine ⟨?_, ?_⟩
  · rw [parts]
    cases (n.reload ⟨bytes, none, .endOfInput⟩).1 <;> simp [Except.mapError, Except.map]
  · intro fault
    rw [parts]
    refine ⟨?_, ?_, ?_⟩
    · intro left m whole
      rw [whole]
      rfl
    · intro m whole
      rw [whole, eq_of_reload_error whole]
      rfl
    · intro e m whole other
      rw [whole, eq_of_reload_error whole]
      simp only [Except.mapError, PagingError.endingIn_of_ne _ other]
      rfl

/-- A source that fails behind a record, within the second length of one, and behind a count of no
whole number of edges. -/
theorem reserved_inParts :
    let n := (new default).reserve 2
    let failing (bytes : List UInt8) :=
      (Source.ofBytes bytes).inParts 1 (.failure (.custom "read failed"))
    0 < 1 ∧ n.reload (failing [0, 0, 0, 0]) = (.ok (failing []), new default) ∧
      n.reload (failing [0, 0, 0]) = (.error (.fault (.custom "read failed")), n) ∧
      n.reload (failing [0, 4]) = (.error (.misaligned 4), n) := by
  intro n failing
  have ints : Length.Form [0, 0] (([] : List NodeId).length * intsPerEdge) := .short (by decide)
  have count : Length.Form [0, 0] ([] : List UInt64).length := .short (by decide)
  have four : Length.Form [0, 4] 4 := .short (by decide)
  have empty : RecordForm ([0, 0] ++ [] ++ [0, 0] ++ []) [] [] := .mk ints (by decide) rfl count rfl
  have whole : n.reload (.ofBytes [0, 0, 0, 0]) = (.ok (.ofBytes []), new default) :=
    reload_of_ok (readFrom_ok (Source.ofBytes_moves _) ints count rfl)
  have short : n.reload (.ofBytes [0, 0, 0]) = (.error (.fault .endOfInput), n) :=
    reload_take empty (k := 3) (by decide)
  have odd : n.reload (.ofBytes [0, 4]) = (.error (.misaligned 4), n) :=
    reload_misaligned (.mk four (by decide))
  have positive : 0 < 1 := by decide
  refine ⟨positive, ?_, ?_, ?_⟩
  · exact ((reload_inParts n [0, 0, 0, 0] positive).2 (.custom "read failed")).1 _ _ whole
  · exact ((reload_inParts n [0, 0, 0] positive).2 (.custom "read failed")).2.1 _ short
  · exact ((reload_inParts n [0, 4] positive).2 (.custom "read failed")).2.2 _ _ odd (by decide)

end Node

end BehaviorGraph
