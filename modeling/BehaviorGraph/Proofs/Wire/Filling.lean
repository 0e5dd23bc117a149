import BehaviorGraph.Wire.Sink

/-!
# Filling a sink

A sink that takes at least one byte on each call takes as many of the bytes that are put into it as
it has room for. How they are cut into fields and calls leaves no trace.

* `Sink.filled`, `Sink.verdict`: the sink after bytes are put into it, and how putting them ends;
* `Sink.filled_filled`, `Sink.verdict_filled`: bytes after bytes are the bytes in a row;
* **`Sink.put_eq`**, **`Sink.putAll_eq`**: one field, and fields in a row.
-/

namespace BehaviorGraph

namespace Sink

/-- The sink after bytes are put into it: it has taken those that it had room for. -/
def filled (s : Sink) (bytes : List UInt8) : Sink :=
  { s with taken := s.taken ++ bytes.take s.room, room := s.room - bytes.length }

/-- How putting bytes into the sink ends: well if it has room for all of them, else as a full sink
ends a write. -/
def verdict (s : Sink) (bytes : List UInt8) : Except Fault Unit :=
  if bytes.length ≤ s.room then .ok () else .error (s.whenFull.getD .nothingTaken)

/-! ## Bytes after bytes -/

section InARow

variable {s : Sink} {a b : List UInt8}

theorem append_append (taken : Array UInt8) (a b : List UInt8) :
    taken ++ a ++ b = taken ++ (a ++ b) := Array.ext' (by simp)

theorem filled_of_le (fits : a.length ≤ s.room) :
    s.filled a = { s with taken := s.taken ++ a, room := s.room - a.length } := by
  rw [filled, List.take_of_length_le fits]

@[simp] theorem filled_nil (s : Sink) : s.filled [] = s := by simp [filled]

/-- A full sink stays as it is. -/
theorem filled_of_full (full : s.room = 0) : s.filled a = s := by
  obtain ⟨taken, room, chunk, whenFull⟩ := s
  obtain rfl : room = 0 := full
  simp [filled]

theorem filled_filled (s : Sink) (a b : List UInt8) : (s.filled a).filled b = s.filled (a ++ b) := by
  simp only [filled, append_append, List.take_append, List.length_append, Nat.sub_sub]

theorem verdict_of_le (fits : a.length ≤ s.room) : s.verdict a = .ok () := if_pos fits

theorem verdict_of_lt (short : s.room < a.length) :
    s.verdict a = .error (s.whenFull.getD .nothingTaken) := if_neg (Nat.not_le_of_lt short)

theorem verdict_filled (fits : a.length ≤ s.room) :
    (s.filled a).verdict b = s.verdict (a ++ b) := by
  have same : b.length ≤ s.room - a.length ↔ (a ++ b).length ≤ s.room := by
    rw [List.length_append]
    omega
  simp only [verdict, filled, same]

/-- Bytes that do not fit are cut off, whatever comes after them. -/
theorem filled_append_of_lt (short : s.room < a.length) : s.filled (a ++ b) = s.filled a := by
  rw [← filled_filled]
  apply filled_of_full
  simp only [filled]
  omega

theorem verdict_append_of_lt (short : s.room < a.length) : s.verdict (a ++ b) = s.verdict a := by
  rw [verdict_of_lt short, verdict_of_lt]
  rw [List.length_append]
  omega

end InARow

/-! ## Fields -/

theorem write_full {s : Sink} (bytes : List UInt8) (full : s.room = 0) :
    write bytes s = (s.whenFull.elim (.ok 0) .error, s) := by
  rw [write, if_pos full]
  cases s.whenFull <;> rfl

theorem write_room {s : Sink} {bytes : List UInt8} (moves : 0 < s.chunk) (room : 0 < s.room)
    (some : bytes ≠ []) :
    ∃ k, k + 1 ≤ bytes.length ∧ k + 1 ≤ s.room ∧
      write bytes s = (.ok (k + 1), s.filled (bytes.take (k + 1))) := by
  have := List.length_pos_iff.2 some
  obtain ⟨k, hk⟩ : ∃ k, min bytes.length (min s.chunk s.room) = k + 1 :=
    Nat.exists_eq_succ_of_ne_zero (by omega)
  have size : (bytes.take (k + 1)).length = k + 1 := by
    rw [List.length_take]
    omega
  refine ⟨k, by omega, by omega, ?_⟩
  rw [write, if_neg (Nat.ne_of_gt room), hk, filled_of_le (by omega), size]

/-- **A sink takes the bytes that it has room for, and if these are not all, it ends as a full sink
does.** -/
theorem put_eq {s : Sink} (moves : 0 < s.chunk) (bytes : List UInt8) :
    s.put bytes = (s.verdict bytes, s.filled bytes) := by
  induction size : bytes.length using Nat.strongRecOn generalizing s bytes with
  | ind size ih =>
    subst size
    rw [put, pour]
    by_cases empty : bytes = []
    · simp [empty, Poured.outcome, verdict]
    have some := List.length_pos_iff.2 empty
    rw [if_neg empty]
    by_cases full : s.room = 0
    · rw [write_full bytes full, filled_of_full full, verdict_of_lt (by omega)]
      cases s.whenFull <;> rfl
    · obtain ⟨k, inBytes, inRoom, taken⟩ := write_room moves (Nat.pos_of_ne_zero full) empty
      have fits : (bytes.take (k + 1)).length ≤ s.room := by
        rw [List.length_take]
        omega
      -- the first call fills the sink with a front part, and the calls after it are those for the rest
      have later := ih (bytes.drop (k + 1)).length (by rw [List.length_drop]; omega)
        (s := s.filled (bytes.take (k + 1))) moves (bytes.drop (k + 1)) rfl
      rw [filled_filled, verdict_filled fits, List.take_append_drop] at later
      rw [taken]
      exact later

/-- **Fields in a row are taken as their bytes in a row.** No byte is taken of the fields after the
one that is cut off. -/
theorem putAll_eq (fields : List (List UInt8)) : ∀ {s : Sink}, 0 < s.chunk →
    s.putAll fields = (s.verdict fields.flatten, s.filled fields.flatten) := by
  induction fields with
  | nil =>
    intro s _
    simp [putAll, verdict]
  | cons field fields ih =>
    intro s moves
    rw [putAll, put_eq moves, List.flatten_cons]
    by_cases fits : field.length ≤ s.room
    · have later := ih (s := s.filled field) moves
      rw [verdict_filled fits, filled_filled] at later
      rw [verdict_of_le fits]
      exact later
    · have short := Nat.lt_of_not_le fits
      rw [verdict_append_of_lt short, filled_append_of_lt short, verdict_of_lt short]

end Sink

end BehaviorGraph
