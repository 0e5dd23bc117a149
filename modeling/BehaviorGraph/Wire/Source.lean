import BehaviorGraph.Wire.BigEndian
import BehaviorGraph.Wire.Fault

/-!
# Byte sources

A source delivers its bytes in order, perhaps only a few on each call, and in the end reports the
end of the input or fails. A decoder takes values off a source; it either succeeds and says what is
left, or fails.

* `Source`, `Source.ofBytes`, `Source.deliver`: a single call;
* `Source.take`: a set number of bytes, with as many calls as that needs;
* **`Source.take_eq`**: what `take` gets does not depend on how many bytes a call delivers;
* `Decoder`, `Decoder.number`, `Decoder.many`, `Decoder.mapFault`.
-/

namespace BehaviorGraph

/-- What a source does when its bytes are used up. -/
inductive Ending
  /-- it reports the end of the input -/
  | endOfInput
  /-- it fails -/
  | failure (fault : Fault)

/-- The fault of a read past the last byte. -/
def Ending.fault : Ending → Fault
  | endOfInput => .endOfInput
  | failure fault => fault

/-- Bytes that are still to be read, how many a call delivers at most, and what comes after them. -/
structure Source where
  rest : List UInt8
  chunk : Option Nat
  ending : Ending

namespace Source

/-- A source that holds all its bytes and then reports the end of the input. -/
def ofBytes (bytes : List UInt8) : Source := ⟨bytes, none, .endOfInput⟩

/-- One call for at most `wanted` bytes. No bytes at all mean that the input has ended. -/
def deliver (s : Source) (wanted : Nat) : Except Fault (List UInt8 × Source) :=
  match s.rest, s.ending with
  | [], .endOfInput => .ok ([], s)
  | [], .failure fault => .error fault
  | rest, _ =>
    let n := min wanted (s.chunk.getD wanted)
    .ok (rest.take n, { s with rest := rest.drop n })

/-- Exactly `count` bytes, by as many calls as it takes. -/
def take (s : Source) (count : Nat) : Except Fault (List UInt8 × Source) :=
  if count = 0 then .ok ([], s) else
    match s.deliver count with
    | .error fault => .error fault
    | .ok ([], _) => .error .endOfInput
    | .ok (byte :: bytes, s') =>
      match s'.take (count - (bytes.length + 1)) with
      | .error fault => .error fault
      | .ok (more, s'') => .ok (byte :: bytes ++ more, s'')
termination_by count

/-- **However few bytes a call delivers, as long as there are any, `take` gets the next `count`
bytes, or fails in the way that the source ends.** -/
theorem take_eq (s : Source) (moves : s.chunk ≠ some 0) (count : Nat) :
    s.take count =
      if count ≤ s.rest.length then .ok (s.rest.take count, { s with rest := s.rest.drop count })
      else .error s.ending.fault := by
  induction count using Nat.strongRecOn generalizing s with
  | ind count ih =>
    rw [take]
    by_cases none : count = 0
    · simp [none]
    rw [if_neg none]
    cases there : s.rest with
    | nil =>
      cases ends : s.ending <;> simp [deliver, there, ends, Ending.fault, none]
    | cons byte bytes =>
      have positive : 0 < min count (s.chunk.getD count) := by
        cases limit : s.chunk with
        | none => simpa using Nat.pos_of_ne_zero none
        | some n =>
          have : n ≠ 0 := fun zero => moves (limit.trans (congrArg some zero))
          simp only [Option.getD_some]
          omega
      obtain ⟨n, hn⟩ : ∃ n, min count (s.chunk.getD count) = n + 1 :=
        ⟨_, (Nat.succ_pred_eq_of_pos positive).symm⟩
      have le : n + 1 ≤ count := hn ▸ Nat.min_le_left _ _
      simp only [deliver, there, hn, List.take_succ_cons, List.drop_succ_cons]
      rw [ih (count - ((bytes.take n).length + 1)) (by omega)
        ⟨bytes.drop n, s.chunk, s.ending⟩ moves]
      by_cases enough : count ≤ bytes.length + 1
      · have short : (bytes.take n).length = n := by simp; omega
        obtain ⟨m, rfl⟩ : ∃ m, count = m + 1 := ⟨count - 1, by omega⟩
        have split : bytes.take m = bytes.take n ++ (bytes.drop n).take (m - n) := by
          rw [← List.take_add, Nat.add_sub_of_le (by omega)]
        simp [short, enough, split, show m - n ≤ bytes.length - n by omega,
          Nat.add_sub_of_le (show n ≤ m by omega)]
      · have short : ¬count - ((bytes.take n).length + 1) ≤ (bytes.drop n).length := by
          simp only [List.length_take, List.length_drop]
          omega
        rw [if_neg short, if_neg (by simpa using enough)]

end Source

/-- A way to take a value off a source. -/
abbrev Decoder (ε α : Type) := StateT Source (Except ε) α

namespace Decoder

/-- An unsigned big-endian number of `width` bytes. -/
def number (width : Nat) : Decoder Fault Nat := fun s =>
  match s.take width with
  | .error fault => .error fault
  | .ok (bytes, s) => .ok (ofBigEndian bytes, s)

/-- The values of `item`, taken `count` times, in front of which `done` stand in reverse. -/
def manyAfter {ε α : Type} (item : Decoder ε α) :
    (done : List α) → (count : Nat) → Decoder ε (List α)
  | done, 0 => fun s => .ok (done.reverse, s)
  | done, count + 1 => fun s =>
    match item s with
    | .error e => .error e
    | .ok (a, s) => manyAfter item (a :: done) count s

/-- The values of `item`, taken `count` times. -/
def many {ε α : Type} (count : Nat) (item : Decoder ε α) : Decoder ε (List α) :=
  manyAfter item [] count

/-- The same decoder with its faults seen as other errors. -/
def mapFault {ε δ α : Type} (f : ε → δ) (d : Decoder ε α) : Decoder δ α := fun s =>
  (d s).mapError f

end Decoder

end BehaviorGraph
