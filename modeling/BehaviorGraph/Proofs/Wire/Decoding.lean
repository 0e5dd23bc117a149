import BehaviorGraph.Wire.BigEndian.Lemmas
import BehaviorGraph.Wire.Source

/-!
# Decoders on known bytes

What a decoder makes of a source whose next bytes are known, and of one that has too few. Only the
bytes and the ending of a source matter, as long as it moves on every call.

* `Decoder.bind_ok`, `Decoder.bind_error`: a decoder in parts;
* `Decoder.Spells`: every value has one spelling, all of the same size;
* **`Decoder.Spells.many_ok`**, **`Decoder.Spells.many_error`**: values in a row are read off their
  spellings in a row, and too few bytes for them end in the fault of the source.
-/

namespace BehaviorGraph

variable {ε δ α β : Type} {s s' : Source}

theorem Source.take_ok {bytes more : List UInt8} (moves : s.chunk ≠ some 0)
    (front : s.rest = bytes ++ more) :
    s.take bytes.length = .ok (bytes, { s with rest := more }) := by
  rw [s.take_eq moves, front, if_pos (by simp), List.take_left, List.drop_left]

theorem Source.take_error {count : Nat} (moves : s.chunk ≠ some 0) (short : s.rest.length < count) :
    s.take count = .error s.ending.fault := by
  rw [s.take_eq moves, if_neg (Nat.not_le_of_lt short)]

theorem Source.ofBytes_moves (bytes : List UInt8) : (ofBytes bytes).chunk ≠ some 0 := by
  intro zero
  cases zero

namespace Decoder

/-! ## Parts of a decoder -/

theorem bind_ok {d : Decoder ε α} {f : α → Decoder ε β} {a : α} (h : d s = .ok (a, s')) :
    (d >>= f) s = f a s' := by
  simp [bind, StateT.bind, Except.bind, h]

theorem bind_error {d : Decoder ε α} {f : α → Decoder ε β} {e : ε} (h : d s = .error e) :
    (d >>= f) s = .error e := by
  simp [bind, StateT.bind, Except.bind, h]

theorem mapFault_ok {d : Decoder ε α} (f : ε → δ) {a : α} (h : d s = .ok (a, s')) :
    d.mapFault f s = .ok (a, s') := by
  simp [mapFault, h, Except.mapError]

theorem mapFault_error {d : Decoder ε α} (f : ε → δ) {e : ε} (h : d s = .error e) :
    d.mapFault f s = .error (f e) := by
  simp [mapFault, h, Except.mapError]

theorem number_ok {width : Nat} {bytes more : List UInt8} (moves : s.chunk ≠ some 0)
    (size : bytes.length = width) (front : s.rest = bytes ++ more) :
    number width s = .ok (ofBigEndian bytes, { s with rest := more }) := by
  rw [number, ← size, Source.take_ok moves front]

/-- A number is read off the bytes that it is written in. -/
theorem number_bigEndian {width n : Nat} {more : List UInt8} (moves : s.chunk ≠ some 0)
    (small : n < 256 ^ width) (front : s.rest = bigEndian width n ++ more) :
    number width s = .ok (n, { s with rest := more }) := by
  rw [number_ok moves (length_bigEndian width n) front, ofBigEndian_bigEndian,
    Nat.mod_eq_of_lt small]

theorem number_error {width : Nat} (moves : s.chunk ≠ some 0) (short : s.rest.length < width) :
    number width s = .error s.ending.fault := by
  rw [number, Source.take_error moves short]

/-- A number and what comes after it need as many bytes as both together. -/
theorem number_bind_error {width : Nat} (size : Nat) {f : Nat → Decoder Fault β}
    (later : ∀ (n : Nat) (s : Source), s.chunk ≠ some 0 → s.rest.length < size →
      f n s = .error s.ending.fault)
    (moves : s.chunk ≠ some 0) (short : s.rest.length < width + size) :
    (number width >>= f) s = .error s.ending.fault := by
  by_cases first : s.rest.length < width
  · exact bind_error (number_error moves first)
  · have taken : (s.rest.take width).length = width := by rw [List.length_take]; omega
    rw [bind_ok (number_ok moves taken (List.take_append_drop width s.rest).symm)]
    exact later _ { s with rest := s.rest.drop width } moves (by rw [List.length_drop]; omega)

/-! ## Values of one size in a row -/

/-- Every value has a spelling of `width` bytes that `item` reads it off, and all such bytes spell
a value. -/
structure Spells (item : Decoder Fault α) (width : Nat) (spell : α → List UInt8) : Prop where
  length_spell : ∀ a, (spell a).length = width
  exists_spell : ∀ bytes : List UInt8, bytes.length = width → ∃ a, spell a = bytes
  ok : ∀ {s : Source} {a : α} {more : List UInt8}, s.chunk ≠ some 0 → s.rest = spell a ++ more →
    item s = .ok (a, { s with rest := more })
  error : ∀ {s : Source}, s.chunk ≠ some 0 → s.rest.length < width →
    item s = .error s.ending.fault

namespace Spells

variable {item : Decoder Fault α} {width : Nat} {spell : α → List UInt8}

theorem length_flatMap (h : item.Spells width spell) (as : List α) :
    (as.flatMap spell).length = as.length * width := by
  induction as with
  | nil => simp
  | cons a as ih =>
    rw [List.flatMap_cons, List.length_append, ih, h.length_spell, List.length_cons, Nat.succ_mul,
      Nat.add_comm]

theorem exists_flatMap (h : item.Spells width spell) {count : Nat} :
    ∀ {bytes : List UInt8}, bytes.length = count * width →
      ∃ as : List α, as.length = count ∧ as.flatMap spell = bytes := by
  induction count with
  | zero =>
    intro bytes size
    rw [Nat.zero_mul] at size
    exact ⟨[], rfl, (List.eq_nil_of_length_eq_zero size).symm⟩
  | succ count ih =>
    intro bytes size
    rw [Nat.succ_mul] at size
    obtain ⟨a, ha⟩ := h.exists_spell (bytes.take width) (by rw [List.length_take]; omega)
    have others : (bytes.drop width).length = count * width := by rw [List.length_drop]; omega
    obtain ⟨as, rfl, has⟩ := ih others
    exact ⟨a :: as, rfl, by rw [List.flatMap_cons, ha, has, List.take_append_drop]⟩

theorem manyAfter_ok (h : item.Spells width spell) (as : List α) :
    ∀ {s : Source} {more : List UInt8} (done : List α), s.chunk ≠ some 0 →
      s.rest = as.flatMap spell ++ more →
      manyAfter item done as.length s = .ok (done.reverse ++ as, { s with rest := more }) := by
  induction as with
  | nil =>
    intro s more done _ front
    obtain rfl : s.rest = more := front
    rw [List.length_nil, manyAfter, List.append_nil]
  | cons a as ih =>
    intro s more done moves front
    rw [List.flatMap_cons, List.append_assoc] at front
    simp only [List.length_cons, manyAfter, h.ok moves front]
    have others := ih (s := { s with rest := as.flatMap spell ++ more }) (a :: done) moves rfl
    rw [others, List.reverse_cons, List.append_assoc]
    rfl

/-- **Values in a row are read off their spellings in a row.** -/
theorem many_ok (h : item.Spells width spell) {as : List α} {more : List UInt8}
    (moves : s.chunk ≠ some 0) (front : s.rest = as.flatMap spell ++ more) :
    many as.length item s = .ok (as, { s with rest := more }) :=
  h.manyAfter_ok as [] moves front

theorem manyAfter_error (h : item.Spells width spell) (count : Nat) :
    ∀ {s : Source} (done : List α), s.chunk ≠ some 0 → s.rest.length < count * width →
      manyAfter item done count s = .error s.ending.fault := by
  induction count with
  | zero =>
    intro s done _ short
    rw [Nat.zero_mul] at short
    exact absurd short (Nat.not_lt_zero _)
  | succ count ih =>
    intro s done moves short
    rw [Nat.succ_mul] at short
    by_cases first : s.rest.length < width
    · simp only [manyAfter, h.error moves first]
    · obtain ⟨a, ha⟩ := h.exists_spell (s.rest.take width) (by rw [List.length_take]; omega)
      have front : s.rest = spell a ++ s.rest.drop width := by rw [ha, List.take_append_drop]
      simp only [manyAfter, h.ok moves front]
      exact ih (s := { s with rest := s.rest.drop width }) (a :: done) moves
        (by rw [List.length_drop]; omega)

/-- **Too few bytes for all the values end in the fault of the source.** -/
theorem many_error (h : item.Spells width spell) {count : Nat} (moves : s.chunk ≠ some 0)
    (short : s.rest.length < count * width) : many count item s = .error s.ending.fault :=
  h.manyAfter_error count [] moves short

end Spells

end Decoder

end BehaviorGraph
