import BehaviorGraph.Proofs.Record.Bodies
import BehaviorGraph.Proofs.Wire.LengthForms

/-!
# Reading a record part by part

What becomes of a source that starts with the parts of a record, and where reading ends if a part is
cut off or is none.

* `Edges.read_ok`, `BitSet.read_ok`, **`Node.readFrom_ok`**: all parts are there;
* `Edges.read_error`, `Edges.read_misaligned`, `Edges.read_short`, `BitSet.read_error`,
  `BitSet.read_short`: one is not;
* `Node.readFrom_uniform`: what is read does not depend on the node that it is put into.
-/

namespace BehaviorGraph

variable {s s' : Source} {front more : List UInt8}

/-! ## Edges -/

namespace Edges

theorem read_ok {targets : List NodeId} (moves : s.chunk ≠ some 0)
    (form : Length.Form front (targets.length * intsPerEdge))
    (h : s.rest = front ++ (targets.flatMap NodeId.spelling ++ more)) :
    read s = .ok (ofCommitted targets, { s with rest := more }) := by
  have length := Length.read_form moves form h
  have many := NodeId.read_spells.many_ok
    (s := { s with rest := targets.flatMap NodeId.spelling ++ more }) moves rfl
  unfold read
  rw [Decoder.bind_ok (Decoder.mapFault_ok _ length), if_pos (Nat.mul_mod_left _ _),
    Nat.mul_div_cancel _ (by decide), Decoder.bind_ok (Decoder.mapFault_ok _ many)]
  rfl

theorem read_error {fault : Fault} (h : Length.read s = .error fault) :
    read s = .error (.fault fault) :=
  Decoder.bind_error (Decoder.mapFault_error _ h)

theorem read_misaligned {ints : Nat} (moves : s.chunk ≠ some 0) (form : Length.Form front ints)
    (odd : ¬ intsPerEdge ∣ ints) (h : s.rest = front ++ more) :
    read s = .error (.misaligned ints) := by
  unfold read
  rw [Decoder.bind_ok (Decoder.mapFault_ok _ (Length.read_form moves form h)),
    if_neg (mt Nat.dvd_of_mod_eq_zero odd)]
  rfl

theorem read_short {ints : Nat} (moves : s.chunk ≠ some 0) (form : Length.Form front ints)
    (whole : intsPerEdge ∣ ints) (h : s.rest = front ++ more) (short : more.length < 4 * ints) :
    read s = .error (.fault s.ending.fault) := by
  obtain ⟨count, rfl⟩ := whole
  have few : more.length < count * 12 := by rw [intsPerEdge] at short; omega
  have many := NodeId.read_spells.many_error (s := { s with rest := more }) moves few
  unfold read
  rw [Decoder.bind_ok (Decoder.mapFault_ok _ (Length.read_form moves form h)),
    if_pos (Nat.mul_mod_right _ _), Nat.mul_div_cancel_left _ (by decide),
    Decoder.bind_error (Decoder.mapFault_error _ many)]

end Edges

/-! ## Words -/

namespace BitSet

theorem read_ok {words : List UInt64} (moves : s.chunk ≠ some 0)
    (form : Length.Form front words.length)
    (h : s.rest = front ++ (words.flatMap wordSpelling ++ more)) :
    read s = .ok (⟨words.toArray⟩, { s with rest := more }) := by
  have many := readWord_spells.many_ok
    (s := { s with rest := words.flatMap wordSpelling ++ more }) moves rfl
  unfold read
  rw [Decoder.bind_ok (Length.read_form moves form h), Decoder.bind_ok many]
  rfl

theorem read_error {fault : Fault} (h : Length.read s = .error fault) : read s = .error fault :=
  Decoder.bind_error h

theorem read_short {count : Nat} (moves : s.chunk ≠ some 0) (form : Length.Form front count)
    (h : s.rest = front ++ more) (short : more.length < 8 * count) :
    read s = .error s.ending.fault := by
  have few : more.length < count * 8 := by omega
  have many := readWord_spells.many_error (s := { s with rest := more }) moves few
  unfold read
  rw [Decoder.bind_ok (Length.read_form moves form h), Decoder.bind_error many]

end BitSet

/-! ## Nodes -/

namespace Node

variable {n : Node}

/-- **A record is read as the edges and words that it spells.** -/
theorem readFrom_ok {targets : List NodeId} {words : List UInt64} {back : List UInt8}
    (moves : s.chunk ≠ some 0) (ints : Length.Form front (targets.length * intsPerEdge))
    (count : Length.Form back words.length)
    (h : s.rest = front ++ targets.flatMap NodeId.spelling ++ back ++
      words.flatMap BitSet.wordSpelling ++ more) :
    n.readFrom s =
      .ok ({ n with edges := .ofCommitted targets, truths := ⟨⟨words.toArray⟩⟩ },
        { s with rest := more }) := by
  simp only [List.append_assoc] at h
  have edges := Edges.read_ok moves ints h
  have bits := BitSet.read_ok (s := { s with rest := back ++
    (words.flatMap BitSet.wordSpelling ++ more) }) moves count rfl
  unfold readFrom
  rw [Decoder.bind_ok edges, Decoder.bind_ok (Decoder.mapFault_ok _ bits)]
  rfl

theorem readFrom_edges_error {e : PagingError} (h : Edges.read s = .error e) :
    n.readFrom s = .error e :=
  Decoder.bind_error h

theorem readFrom_bits_error {e : Edges} {fault : Fault} (edges : Edges.read s = .ok (e, s'))
    (bits : BitSet.read s' = .error fault) : n.readFrom s = .error (.fault fault) := by
  unfold readFrom
  rw [Decoder.bind_ok edges, Decoder.bind_error (Decoder.mapFault_error _ bits)]

/-- What is read depends on the source alone, not on the node that it is put into. -/
theorem readFrom_uniform (s : Source) :
    (∃ e, ∀ n : Node, n.readFrom s = .error e) ∨
      ∃ edges truths s', ∀ n : Node,
        n.readFrom s = .ok ({ n with edges := edges, truths := truths }, s') := by
  cases edges : Edges.read s with
  | error e => exact .inl ⟨e, fun n => readFrom_edges_error edges⟩
  | ok read =>
    obtain ⟨e, s'⟩ := read
    cases bits : BitSet.read s' with
    | error fault => exact .inl ⟨_, fun n => readFrom_bits_error edges bits⟩
    | ok read =>
      obtain ⟨words, s''⟩ := read
      refine .inr ⟨e, ⟨words⟩, s'', fun n => ?_⟩
      unfold readFrom
      rw [Decoder.bind_ok edges, Decoder.bind_ok (Decoder.mapFault_ok _ bits)]
      rfl

end Node

end BehaviorGraph
