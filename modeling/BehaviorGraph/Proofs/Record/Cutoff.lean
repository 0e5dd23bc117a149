import BehaviorGraph.Proofs.Record.RoundTrip

/-!
# Records that are cut off

A record goes to a sink in many small fields, and each field perhaps in many calls. A sink that fills
up on the way has nevertheless taken a front part of the record, and the size of the record tells
beforehand whether there is room for it.

* `Sink.front_filled`, `Sink.verdict_eq_ok_iff`: what a sink has taken, and when this is all;
* **`Node.writeTo_front`**: what is taken of a record, and how the writing ends.
-/

namespace BehaviorGraph

namespace Sink

variable {s : Sink} {bytes : List UInt8}

theorem front_filled (s : Sink) (bytes : List UInt8) :
    (s.filled bytes).taken = s.taken ++ bytes.take (min s.room bytes.length) := by
  rw [← List.take_eq_take_min]
  rfl

theorem verdict_eq_ok_iff : s.verdict bytes = .ok () ↔ bytes.length ≤ s.room := by
  unfold verdict
  split <;> simp_all

end Sink

namespace Node

/-- **A sink that fills up has taken the front of the record, as far as it had room.** The writing
succeeds exactly if that is all. -/
theorem writeTo_front (n : Node) (h : n.Fits) :
    ∃ bytes, n.encode = .ok bytes ∧ bytes.length = n.byteCount ∧
      ∀ s : Sink, 0 < s.chunk → ∃ result left, n.writeTo s = (result, left) ∧
        left.taken = s.taken ++ bytes.take (min s.room n.byteCount) ∧
        left.room = s.room - n.byteCount ∧
        (result = .ok () ↔ n.byteCount ≤ s.room) ∧
        (s.room < n.byteCount →
          (∀ fault, s.whenFull = some fault → result = .error (.fault fault)) ∧
          (s.whenFull = none →
            ∃ cause, result = .error (.fault cause) ∧ cause.kind = .writeZero)) := by
  refine ⟨n.record, encode_eq h, n.length_record, ?_⟩
  intro s moves
  refine ⟨_, _, writeTo_filled h moves, ?_⟩
  rw [← n.length_record]
  refine ⟨s.front_filled n.record, rfl, ?_, ?_⟩
  · rw [← Sink.verdict_eq_ok_iff]
    cases s.verdict n.record <;> simp [Except.mapError]
  · intro short
    rw [Sink.verdict_of_lt short]
    constructor
    · intro fault ending
      rw [ending]
      rfl
    · intro ending
      rw [ending]
      exact ⟨.nothingTaken, rfl, rfl⟩

/-- The sink fills up within the high half of a fingerprint, on the second call for it. -/
theorem sample_front :
    sample.Fits ∧ sample.byteCount = 32 ∧ ∃ result left,
      sample.writeTo ⟨#[0xAA], 5, 2, some (.custom "disk full")⟩ = (result, left) ∧
        left.taken = #[0xAA, 0x00, 0x03, 0xDE, 0xAD, 0xBE] ∧ left.room = 0 ∧
        result = .error (.fault (.custom "disk full")) := by
  have fits : sample.Fits := ⟨by decide, by decide⟩
  have size : sample.byteCount = 32 := by decide
  obtain ⟨later, front⟩ : ∃ later : List UInt8,
      sample.encode = .ok (0x00 :: 0x03 :: 0xDE :: 0xAD :: 0xBE :: later) := ⟨_, rfl⟩
  obtain ⟨bytes, encoded, -, written⟩ := writeTo_front sample fits
  obtain ⟨result, left, outcome, taken, room, -, short⟩ :=
    written ⟨#[0xAA], 5, 2, some (.custom "disk full")⟩ (by decide)
  rw [front] at encoded
  cases encoded
  rw [size] at taken room short
  refine ⟨fits, size, result, left, outcome, taken, room, ?_⟩
  exact (short (by decide)).1 _ rfl

end Node

end BehaviorGraph
