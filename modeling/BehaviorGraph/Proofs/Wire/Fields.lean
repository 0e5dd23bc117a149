import BehaviorGraph.Proofs.Wire.Filling
import BehaviorGraph.Proofs.Wire.LengthForms
import BehaviorGraph.Wire.Field

/-!
# Fields in a row

Primitive values that are written one after another are read again by their kinds alone, although a
length does not say how many bytes it takes. A length that is too large to be written is passed by, and
the values around it stand as if it were not there.

* `Field.fits`, `Field.bytes`, `Field.width`: which values can be written, their bytes and sizes;
* `Field.write_of_fits`, `Field.write_of_unfit`, **`FieldKind.read_bytes`**: one value;
* `Field.writeAll`, `FieldKind.readAll`: values in a row;
* `Field.writeAll_eq`, `FieldKind.readAll_bytes`: what becomes of them;
* **`Field.row_roundTrip`**: writing and reading together.
-/

namespace BehaviorGraph

/-! ## One value -/

namespace Field

/-- The value can be written. Only a length may be too large. -/
def fits : Field → Bool
  | length value => value ≤ Length.max
  | _ => true

/-- The bytes that a value is written in, if it fits. -/
def bytes : Field → List UInt8
  | int16 value => bigEndian 2 value.toUInt16.toNat
  | int32 value => bigEndian 4 value.toUInt32.toNat
  | int64 value => bigEndian 8 value.toUInt64.toNat
  | length value => Length.bytes value

/-- The number of bytes of a value. -/
def width : Field → Nat
  | int16 _ => 2
  | int32 _ => 4
  | int64 _ => 8
  | length value => Length.width value

/-- How writing a value ends in a sink with room for it. -/
def verdict : Field → Except Fault Unit
  | length value => if value ≤ Length.max then .ok () else .error (.lengthTooLarge value Length.max)
  | _ => .ok ()

variable {f : Field} {s : Sink}

@[simp] theorem length_bytes (f : Field) : f.bytes.length = f.width := by
  cases f with
  | length value => exact Length.length_bytes value
  | _ => exact length_bigEndian _ _

theorem encode_eq (f : Field) : f.encode = f.verdict.map fun _ => f.bytes := by
  cases f with
  | length value =>
    rw [encode, verdict, Length.encode_eq]
    split <;> rfl
  | _ => rfl

theorem verdict_of_fits (fits : f.fits) : f.verdict = .ok () := by
  cases f with
  | length value => exact if_pos (of_decide_eq_true fits)
  | _ => rfl

theorem exists_of_unfit (unfit : ¬ f.fits) :
    ∃ value, f = .length value ∧ Length.max < value ∧
      f.verdict = .error (.lengthTooLarge value Length.max) := by
  cases f with
  | length value =>
    have large : ¬ value ≤ Length.max := fun le => unfit (decide_eq_true le)
    exact ⟨value, rfl, Nat.lt_of_not_le large, if_neg large⟩
  | _ => exact absurd rfl unfit

theorem write_of_fits (fits : f.fits) (moves : 0 < s.chunk) :
    f.write s = (s.verdict f.bytes, s.filled f.bytes) := by
  rw [write, encode_eq, verdict_of_fits fits]
  exact Sink.put_eq moves f.bytes

theorem write_of_unfit (unfit : ¬ f.fits) : f.write s = (f.verdict, s) := by
  obtain ⟨value, -, -, refused⟩ := exists_of_unfit unfit
  rw [write, encode_eq, refused]
  rfl

end Field

/-- **A value is read by its kind off the bytes that it is written in.** -/
theorem FieldKind.read_bytes {f : Field} {s : Source} {more : List UInt8} (fits : f.fits)
    (moves : s.chunk ≠ some 0) (front : s.rest = f.bytes ++ more) :
    f.kind.read s = .ok (f, { s with rest := more }) := by
  cases f with
  | int16 value =>
    have number := Decoder.number_bigEndian moves value.toUInt16.toNat_lt front
    rw [Field.kind, read, Decoder.bind_ok number, UInt16.ofNat_toNat, Int16.toInt16_toUInt16]
    rfl
  | int32 value =>
    have number := Decoder.number_bigEndian moves value.toUInt32.toNat_lt front
    rw [Field.kind, read, Decoder.bind_ok number, UInt32.ofNat_toNat, Int32.toInt32_toUInt32]
    rfl
  | int64 value =>
    have number := Decoder.number_bigEndian moves value.toUInt64.toNat_lt front
    rw [Field.kind, read, Decoder.bind_ok number, UInt64.ofNat_toNat, Int64.toInt64_toUInt64]
    rfl
  | length value =>
    have form := Length.form_bytes (of_decide_eq_true fits)
    rw [Field.kind, read, Decoder.bind_ok (Length.read_form moves form front)]
    rfl

/-! ## Values in a row -/

namespace Field

/-- Write values one after another. After one that is too large the next ones are written all the
same. -/
def writeAll : List Field → Sink → List (Except Fault Unit) × Sink
  | [], s => ([], s)
  | f :: fields, s =>
    let (outcome, s) := f.write s
    let (outcomes, s) := writeAll fields s
    (outcome :: outcomes, s)

theorem writeAll_cons (f : Field) (fields : List Field) (s : Sink) :
    writeAll (f :: fields) s = ((f.write s).1 :: (writeAll fields (f.write s).2).1,
      (writeAll fields (f.write s).2).2) := rfl

/-- The values of a row that can be written. -/
def kept (fields : List Field) : List Field := fields.filter fits

theorem kept_cons_of_fits {f : Field} (fit : f.fits) (fields : List Field) :
    kept (f :: fields) = f :: kept fields := List.filter_cons_of_pos fit

theorem kept_cons_of_unfit {f : Field} (unfit : ¬ f.fits) (fields : List Field) :
    kept (f :: fields) = kept fields := List.filter_cons_of_neg unfit

theorem fits_of_mem_kept {f : Field} {fields : List Field} (there : f ∈ kept fields) : f.fits :=
  (List.mem_filter.1 there).2

theorem kept_kept (fields : List Field) : kept (kept fields) = kept fields :=
  List.filter_eq_self.2 fun _ => fits_of_mem_kept

/-- The number of bytes of values in a row. -/
def rowWidth : List Field → Nat
  | [] => 0
  | f :: fields => f.width + rowWidth fields

theorem length_flatMap_bytes (fields : List Field) :
    (fields.flatMap bytes).length = rowWidth fields := by
  induction fields with
  | nil => rfl
  | cons f fields ih => rw [List.flatMap_cons, List.length_append, length_bytes, ih, rowWidth]

/-- Values in a row are tried one by one, and of those that fit the bytes are taken. -/
theorem writeAll_eq (fields : List Field) : ∀ {s : Sink}, 0 < s.chunk →
    rowWidth (kept fields) ≤ s.room →
    writeAll fields s = (fields.map verdict, s.filled ((kept fields).flatMap bytes)) := by
  induction fields with
  | nil =>
    intro s _ _
    simp [writeAll, kept]
  | cons f fields ih =>
    intro s moves room
    by_cases fit : f.fits
    · rw [kept_cons_of_fits fit] at room ⊢
      rw [rowWidth] at room
      have enough : f.bytes.length ≤ s.room := by
        rw [length_bytes]
        omega
      have left : (s.filled f.bytes).room = s.room - f.width := by rw [Sink.filled, length_bytes]
      have later := ih (s := s.filled f.bytes) moves (by rw [left]; omega)
      rw [writeAll_cons, write_of_fits fit moves, Sink.verdict_of_le enough, later,
        Sink.filled_filled, List.map_cons, verdict_of_fits fit, List.flatMap_cons]
    · rw [kept_cons_of_unfit fit] at room ⊢
      rw [writeAll_cons, write_of_unfit fit, ih moves room, List.map_cons]

end Field

namespace FieldKind

/-- Values of the given kinds off a source, one after another, each with what is left of the source
behind it. -/
def readAll : List FieldKind → Source → Except Fault (List (Field × Source))
  | [], _ => .ok []
  | kind :: kinds, s => do
    let (value, s) ← kind.read s
    let later ← readAll kinds s
    return (value, s) :: later

/-- **Values in a row are read by their kinds off their bytes in a row.** -/
theorem readAll_bytes (fields : List Field) : ∀ {s : Source} {rest : List UInt8},
    (∀ f ∈ fields, f.fits) → s.chunk ≠ some 0 → s.rest = fields.flatMap Field.bytes ++ rest →
    ∃ read, readAll (fields.map Field.kind) s = .ok read ∧ read.map Prod.fst = fields ∧
      ∀ i (h : i < read.length), read[i].2 =
        { s with rest := s.rest.drop (Field.rowWidth (fields.take (i + 1))) } := by
  induction fields with
  | nil =>
    intro s rest _ _ _
    exact ⟨[], rfl, rfl, fun i h => absurd h (Nat.not_lt_zero i)⟩
  | cons f fields ih =>
    intro s rest fit moves front
    obtain ⟨first, others⟩ := List.forall_mem_cons.1 fit
    rw [List.flatMap_cons, List.append_assoc] at front
    have behind : s.rest.drop f.width = fields.flatMap Field.bytes ++ rest := by
      rw [front, ← f.length_bytes, List.drop_left]
    have here := read_bytes first moves front
    rw [← behind] at here
    obtain ⟨later, readLater, values, sources⟩ :=
      ih (s := { s with rest := s.rest.drop f.width }) others moves behind
    refine ⟨(f, { s with rest := s.rest.drop f.width }) :: later, ?_, ?_, ?_⟩
    · rw [List.map_cons, readAll, here]
      change (readAll (fields.map Field.kind) _ >>= _) = _
      rw [readLater]
      rfl
    · rw [List.map_cons, values]
    · intro i h
      cases i with
      | zero => simp [Field.rowWidth]
      | succ i =>
        rw [List.getElem_cons_succ, sources i (Nat.lt_of_succ_lt_succ h), List.drop_drop]
        rfl

end FieldKind

namespace Field

/-- **Values that are written in a row are read again** by their kinds alone, and a length that is
too large leaves nothing behind. -/
theorem row_roundTrip (fields : List Field) (s : Sink) (moves : 0 < s.chunk)
    (room : rowWidth (kept fields) ≤ s.room) (rest : List UInt8) :
    ∃ (written : List UInt8) (left : Sink) (read : List (Field × Source)),
      left = { s with taken := s.taken ++ written, room := s.room - written.length } ∧
      written.length = rowWidth (kept fields) ∧
      writeAll fields s = (fields.map verdict, left) ∧
      (∀ f ∈ fields, f.fits → f.verdict = .ok ()) ∧
      (∀ f ∈ fields, ¬ f.fits → ∃ fault, f.verdict = .error fault ∧ fault.kind = .invalidInput ∧
        ∀ t : Sink, f.write t = (.error fault, t)) ∧
      (writeAll (kept fields) s).2 = left ∧
      FieldKind.readAll ((kept fields).map kind) (.ofBytes (written ++ rest)) = .ok read ∧
      read.map Prod.fst = kept fields ∧
      ∀ i (h : i < read.length), read[i].2 =
        .ofBytes ((written ++ rest).drop (rowWidth ((kept fields).take (i + 1)))) := by
  have size := length_flatMap_bytes (kept fields)
  obtain ⟨read, isRead, values, sources⟩ := FieldKind.readAll_bytes (kept fields)
    (s := .ofBytes ((kept fields).flatMap bytes ++ rest)) (fun f => fits_of_mem_kept)
    (Source.ofBytes_moves _) rfl
  refine ⟨(kept fields).flatMap bytes, s.filled ((kept fields).flatMap bytes), read,
    Sink.filled_of_le (by omega), size, writeAll_eq fields moves room,
    fun f _ => verdict_of_fits, ?_, ?_, isRead, values, sources⟩
  · intro f _ unfit
    obtain ⟨value, -, -, refused⟩ := exists_of_unfit unfit
    exact ⟨_, refused, rfl, fun t => by rw [write_of_unfit unfit, refused]⟩
  · rw [writeAll_eq (kept fields) moves (by rwa [kept_kept]), kept_kept]

/-- Lengths on both sides of what two bytes can hold, and one that is too large between numbers. -/
def mixed : List Field :=
  [.length 0x8000, .int16 (-1), .length 0x80000000, .int64 0x7FFFFFFFFFFFFFFF, .length 0x7FFF,
    .int32 (-0x80000000)]

/-- A sink that takes three bytes on each call, and that the row fills to the last one. -/
theorem mixed_roundTrip :
    let s : Sink := ⟨#[0xAB], 20, 3, none⟩
    (0 < s.chunk ∧ rowWidth (kept mixed) = s.room ∧
      mixed.map verdict = [.ok (), .ok (), .error (.lengthTooLarge 0x80000000 Length.max), .ok (),
        .ok (), .ok ()]) ∧
    ∃ (written : List UInt8) (left : Sink) (read : List (Field × Source)),
      left = { s with taken := s.taken ++ written, room := 0 } ∧
      writeAll mixed s = (mixed.map verdict, left) ∧
      FieldKind.readAll ((kept mixed).map kind) (.ofBytes (written ++ [0xFF])) = .ok read ∧
      read.map Prod.fst = kept mixed := by
  intro s
  have moves : 0 < s.chunk := by decide
  have room : rowWidth (kept mixed) = s.room := by decide
  obtain ⟨written, left, read, rfl, size, whole, -, -, -, isRead, values, -⟩ :=
    row_roundTrip mixed s moves (Nat.le_of_eq room) [0xFF]
  refine ⟨⟨moves, room, by decide⟩, written, _, read, ?_, whole, isRead, values⟩
  rw [size, room, Nat.sub_self]

end Field

end BehaviorGraph
