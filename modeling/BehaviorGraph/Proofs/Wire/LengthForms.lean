import BehaviorGraph.Proofs.Wire.Decoding
import BehaviorGraph.Wire.Length

/-!
# The forms of a length

A length stands in two bytes whose first bit is clear, or, negated, in four bytes whose first bit is
set. The four bytes of the smallest negative number are the form of no length. Every length that can
be written has one form that is written, and small ones have a second one that is only read.

* `Length.Form`, `Length.formless`: the bytes of a length, and those that look like it;
* `Length.Cut`, `Length.bytes_cases`: bytes that do not start with any of these are too few;
* `Length.packed_ofNat`, `Length.ofNegated_ok`: the two halves of a number, and its negation;
* `Length.encode_eq`, `Length.form_bytes`: what is written is a form;
* `Length.shortened`, `Length.Form.shortened_eq`, `Length.Form.le_max`: which form it is;
* **`Length.read_form`**, **`Length.read_formless`**, **`Length.read_cut`**: a form is read, the
  formless bytes are refused, and any other bytes are too few.
-/

namespace BehaviorGraph

namespace Length

/-- Four bytes as a signed number. -/
def signed (bytes : List UInt8) : Int := (Int32.ofNat (ofBigEndian bytes)).toInt

/-- The four bytes that are no negated length. -/
def formless : List UInt8 := [0x80, 0, 0, 0]

/-- The bytes that a length may stand in. -/
inductive Form : List UInt8 → Nat → Prop
  | short {a b : UInt8} : a < 0x80 → Form [a, b] (ofBigEndian [a, b])
  | long {a b c d : UInt8} {n : Nat} : 0x80 ≤ a → [a, b, c, d] ≠ formless →
      signed [a, b, c, d] = -n → Form [a, b, c, d] n

/-- Bytes that break off before a length ends: in its first two bytes, or in its four if the first
bit is set. -/
inductive Cut : List UInt8 → Prop
  | two {bytes : List UInt8} : bytes.length < 2 → Cut bytes
  | four {a b : UInt8} {more : List UInt8} : 0x80 ≤ a → more.length < 2 → Cut (a :: b :: more)

/-! ## Numbers of the bytes -/

theorem ofBigEndian_pair (a b : UInt8) : ofBigEndian [a, b] = 256 * a.toNat + b.toNat := by
  simp [ofBigEndian]

theorem pair_lt (a b : UInt8) : ofBigEndian [a, b] < UInt16.size := by
  have := a.toNat_lt
  have := b.toNat_lt
  rw [ofBigEndian_pair, UInt16.size]
  omega

theorem ofBigEndian_four (a b c d : UInt8) :
    ofBigEndian [a, b, c, d] = UInt16.size * ofBigEndian [a, b] + ofBigEndian [c, d] := by
  simp only [ofBigEndian, UInt16.size, List.foldl_cons, List.foldl_nil]
  omega

theorem pair_le_maxShort {a b : UInt8} : ofBigEndian [a, b] ≤ maxShort ↔ a < 0x80 := by
  have := b.toNat_lt
  have bound : (0x80 : UInt8).toNat = 128 := rfl
  rw [ofBigEndian_pair, maxShort, UInt8.lt_iff_toNat_lt, bound]
  omega

theorem le_four {a b c d : UInt8} : 2 ^ 31 ≤ ofBigEndian [a, b, c, d] ↔ 0x80 ≤ a := by
  have := b.toNat_lt
  have := c.toNat_lt
  have := d.toNat_lt
  have bound : (0x80 : UInt8).toNat = 128 := rfl
  rw [UInt8.le_iff_toNat_le, bound, ofBigEndian_four, ofBigEndian_pair, ofBigEndian_pair,
    UInt16.size]
  omega

theorem four_lt (a b c d : UInt8) : ofBigEndian [a, b, c, d] < UInt32.size := by
  have := a.toNat_lt
  have := b.toNat_lt
  have := c.toNat_lt
  have := d.toNat_lt
  rw [ofBigEndian_four, ofBigEndian_pair, ofBigEndian_pair, UInt16.size, UInt32.size]
  omega

theorem four_eq_formless {a b c d : UInt8} :
    ofBigEndian [a, b, c, d] = 0x80000000 ↔ [a, b, c, d] = formless := by
  constructor
  · intro same
    rw [← bigEndian_ofBigEndian [a, b, c, d], same]
    rfl
  · intro same
    rw [same]
    rfl

/-- A number of four bytes with the first bit set is negative. -/
theorem signed_of_ge {bytes : List UInt8} (low : 2 ^ 31 ≤ ofBigEndian bytes)
    (high : ofBigEndian bytes < UInt32.size) :
    signed bytes = ofBigEndian bytes - (UInt32.size : Int) := by
  rw [signed, Int32.toInt_ofNat']
  rw [UInt32.size] at high ⊢
  rw [Int.bmod_def, Int32.size]
  omega

/-! ## Signed numbers -/

theorem ofInt_eq {int : Int32} {n : Nat} (value : int.toInt = n) : ofInt int = n := by
  have wide : int.toInt64.toInt = n := by rw [Int32.toInt_toInt64, value]
  have bound := int.toInt64.toInt_lt
  have same : int.toInt64 = Int64.ofNat n := by
    rw [← Int64.ofInt_toInt int.toInt64, wide]
    rfl
  rw [ofInt, same, Int64.toUInt64_ofNat', UInt64.toNat_ofNat']
  omega

theorem toBitVec_packed (high : Int16) (low : UInt16) : (packed high low).toBitVec =
    high.toBitVec.signExtend 32 <<< 16 ||| low.toBitVec.setWidth 32 := by
  have sixteen : (16 : Int32).toBitVec.smod 32 = 16 := by decide
  rw [packed, Int32.toBitVec_or, Int32.toBitVec_shiftLeft, sixteen, Int16.toBitVec_toInt32,
    UInt32.toBitVec_toInt32, UInt16.toBitVec_toUInt32]
  rfl

/-- The sign of the first half is shifted out, and the second half has none. -/
theorem packed_ofNat (high : Nat) {low : Nat} (small : low < UInt16.size) :
    packed (Int16.ofNat high) (UInt16.ofNat low) = Int32.ofNat (UInt16.size * high + low) := by
  have bits (j : Nat) : (UInt16.size * high + low).testBit j =
      if j < 16 then low.testBit j else high.testBit (j - 16) :=
    Nat.testBit_two_pow_mul_add high (i := 16) small j
  apply Int32.toBitVec_inj.1
  rw [toBitVec_packed, Int16.toBitVec_ofNat', UInt16.toBitVec_ofNat', Int32.toBitVec_ofNat']
  apply BitVec.eq_of_getLsbD_eq
  intro i hi
  rw [BitVec.getLsbD_or, BitVec.getLsbD_shiftLeft, BitVec.getLsbD_signExtend,
    BitVec.getLsbD_setWidth, BitVec.getLsbD_ofNat, BitVec.getLsbD_ofNat, BitVec.getLsbD_ofNat, bits]
  by_cases back : i < 16
  · simp [hi, back]
  · have inner : i - 16 < 16 := by omega
    have outer : i - 16 < 32 := by omega
    simp [hi, back, inner, outer]

theorem nonneg_ofNat {n : Nat} (small : n < UInt16.size) : 0 ≤ Int16.ofNat n ↔ n ≤ maxShort := by
  rw [UInt16.size] at small
  rw [Int16.le_iff_toInt_le, Int16.toInt_ofNat', Int16.toInt_zero, Int.bmod_def, Int16.size,
    maxShort]
  omega

theorem ofInt_short {n : Nat} (small : n ≤ maxShort) : ofInt (Int16.ofNat n).toInt32 = n := by
  rw [maxShort] at small
  apply ofInt_eq
  rw [Int16.toInt_toInt32, Int16.toInt_ofNat', Int.bmod_def, Int16.size]
  omega

theorem ofNat_eq_minValue {n : Nat} (small : n < UInt32.size) :
    Int32.ofNat n = Int32.minValue ↔ n = 0x80000000 := by
  constructor
  · intro same
    have unsigned := congrArg (fun int : Int32 => int.toUInt32.toNat) same
    change n % 2 ^ 32 = 0x80000000 at unsigned
    rwa [Nat.mod_eq_of_lt small] at unsigned
  · rintro rfl
    rfl

/-- A number that is not the smallest is the negation of its negation. -/
theorem ofNegated_ok {int : Int32} {n : Nat} (value : int.toInt = -n)
    (allowed : int ≠ Int32.minValue) : ofNegated int = .ok n := by
  have low := int.le_toInt
  have high := int.toInt_lt
  have other : int.toInt ≠ -2 ^ 31 := fun same => allowed (Int32.toInt_inj.1 same)
  have negation : (-int).toInt = n := by
    rw [Int32.toInt_neg, value, Int.neg_neg, Int.bmod_def]
    omega
  rw [ofNegated, if_neg allowed, ofInt_eq negation]

/-! ## The front of given bytes -/

theorem form_four {a b c d : UInt8} (low : 2 ^ 31 < ofBigEndian [a, b, c, d]) :
    Form [a, b, c, d] (UInt32.size - ofBigEndian [a, b, c, d]) := by
  have high := four_lt a b c d
  refine .long (le_four.1 (Nat.le_of_lt low)) (mt four_eq_formless.2 (Nat.ne_of_gt low)) ?_
  rw [signed_of_ge (Nat.le_of_lt low) high]
  omega

/-- **Bytes start with a form, or with the formless bytes, or they are too few.** -/
theorem bytes_cases (bytes : List UInt8) :
    (∃ front more n, Form front n ∧ bytes = front ++ more) ∨
      (∃ more, bytes = formless ++ more) ∨ Cut bytes := by
  rcases bytes with _ | ⟨a, _ | ⟨b, rest⟩⟩
  · exact .inr (.inr (.two (by simp)))
  · exact .inr (.inr (.two (by simp)))
  by_cases small : a < 0x80
  · exact .inl ⟨[a, b], rest, _, .short small, rfl⟩
  have large := UInt8.not_lt.1 small
  rcases rest with _ | ⟨c, _ | ⟨d, rest⟩⟩
  · exact .inr (.inr (.four large (by simp)))
  · exact .inr (.inr (.four large (by simp)))
  by_cases refused : [a, b, c, d] = formless
  · exact .inr (.inl ⟨rest, congrArg (· ++ rest) refused⟩)
  · have low := (le_four (b := b) (c := c) (d := d)).2 large
    have other := mt four_eq_formless.1 refused
    exact .inl ⟨[a, b, c, d], rest, _, form_four (by omega), rfl⟩

/-! ## Writing -/

/-- The bytes that a length is written in. -/
def bytes (n : Nat) : List UInt8 :=
  if n ≤ maxShort then bigEndian 2 n else bigEndian 4 (UInt32.size - n)

theorem encode_eq (n : Nat) :
    encode n = if n ≤ max then .ok (bytes n) else .error (.lengthTooLarge n max) := by
  rw [encode, bytes, Int16.toUInt16_ofNat', UInt16.toNat_ofNat', Int32.toUInt32_neg,
    Int32.toUInt32_ofNat', UInt32.toNat_neg, UInt32.toNat_ofNat', maxShort, max]
  split
  · rw [if_pos (by omega), Nat.mod_eq_of_lt (by omega)]
  · split
    · rw [Nat.mod_eq_of_lt (a := n) (by omega), Nat.mod_eq_of_lt]
      rw [UInt32.size]
      omega
    · rfl

@[simp] theorem length_bytes (n : Nat) : (bytes n).length = width n := by
  rw [bytes, width]
  split <;> exact length_bigEndian _ _

/-- A length that is not zero has a form of four bytes, whether or not two are enough. -/
theorem form_negated {n : Nat} (some : 0 < n) (few : n ≤ max) :
    Form (bigEndian 4 (UInt32.size - n)) n := by
  rw [max] at few
  obtain ⟨a, b, c, d, four⟩ : ∃ a b c d, bigEndian 4 (UInt32.size - n) = [a, b, c, d] :=
    ⟨_, _, _, _, rfl⟩
  have value : ofBigEndian [a, b, c, d] = UInt32.size - n := by
    rw [← four, ofBigEndian_bigEndian, UInt32.size]
    omega
  rw [UInt32.size] at value
  have form := form_four (a := a) (b := b) (c := c) (d := d) (by omega)
  rwa [value, UInt32.size, Nat.sub_sub_self (by omega), ← four] at form

theorem form_bytes {n : Nat} (h : n ≤ max) : Form (bytes n) n := by
  rw [bytes, maxShort]
  split
  · obtain ⟨a, b, two⟩ : ∃ a b, bigEndian 2 n = [a, b] := ⟨_, _, rfl⟩
    have value : ofBigEndian [a, b] = n := by
      rw [← two, ofBigEndian_bigEndian]
      omega
    have form : Form [a, b] (ofBigEndian [a, b]) :=
      .short (pair_le_maxShort.1 (by rw [value, maxShort]; assumption))
    rwa [value, ← two] at form
  · exact form_negated (by omega) h

/-! ## The form that is written -/

/-- A form of the length `n`, in two bytes instead of four if these are enough. -/
def shortened (front : List UInt8) (n : Nat) : List UInt8 :=
  if front.length = 4 ∧ n ≤ maxShort then bigEndian 2 n else front

section Forms

variable {front : List UInt8} {n : Nat}

/-- Four bytes with the first bit set hold what their length is short of 2³². -/
theorem eq_of_signed {a b c d : UInt8} (large : 0x80 ≤ a) (value : signed [a, b, c, d] = -n) :
    ofBigEndian [a, b, c, d] = UInt32.size - n ∧ 2 ^ 31 ≤ ofBigEndian [a, b, c, d] := by
  have low := (le_four (b := b) (c := c) (d := d)).2 large
  have high := four_lt a b c d
  rw [signed_of_ge low high] at value
  exact ⟨by omega, low⟩

theorem Form.le_max (form : Form front n) : n ≤ max := by
  cases form with
  | short small => exact Nat.le_trans (pair_le_maxShort.2 small) (by decide)
  | long large allowed value =>
    obtain ⟨packed, low⟩ := eq_of_signed large value
    have other := mt four_eq_formless.1 allowed
    rw [UInt32.size] at packed
    rw [max]
    omega

theorem Form.length_eq (form : Form front n) :
    front.length = width n ∨ front.length = width n + 2 := by
  rw [width]
  cases form with
  | short small =>
    rw [if_pos (pair_le_maxShort.2 small)]
    exact .inl rfl
  | long =>
    split
    · exact .inr rfl
    · exact .inl rfl

/-- The shortened form of a length is the one that is written. -/
theorem Form.shortened_eq (form : Form front n) : shortened front n = bytes n := by
  cases form with
  | @short a b small =>
    rw [shortened, if_neg (by simp), bytes, if_pos (pair_le_maxShort.2 small)]
    exact (bigEndian_ofBigEndian [a, b]).symm
  | @long a b c d _ large allowed value =>
    rw [shortened, bytes]
    by_cases small : n ≤ maxShort
    · rw [if_pos ⟨rfl, small⟩, if_pos small]
    · obtain ⟨packed, -⟩ := eq_of_signed large value
      rw [if_neg fun both => small both.2, if_neg small, ← packed]
      exact (bigEndian_ofBigEndian [a, b, c, d]).symm

/-- A form that is as long as the one that is written is that one. -/
theorem Form.eq_bytes (form : Form front n) (same : front.length = width n) :
    front = bytes n := by
  rw [← form.shortened_eq, shortened, if_neg]
  rintro ⟨four, small⟩
  rw [width, if_pos small] at same
  omega

end Forms
/-! ## Reading -/

section Reading

variable {s : Source} {front more : List UInt8} {n : Nat} {a b c d : UInt8}

theorem read_pair (moves : s.chunk ≠ some 0) (small : a < 0x80) (h : s.rest = [a, b] ++ more) :
    read s = .ok (ofBigEndian [a, b], { s with rest := more }) := by
  have first : Decoder.number 2 s = .ok (ofBigEndian [a, b], { s with rest := more }) :=
    Decoder.number_ok moves rfl h
  have short : ofBigEndian [a, b] ≤ maxShort := pair_le_maxShort.2 small
  unfold read
  rw [Decoder.bind_ok first, if_pos ((nonneg_ofNat (pair_lt a b)).2 short), ofInt_short short]
  rfl

/-- After two bytes whose first bit is set, a length goes on with the next two. -/
theorem read_large (moves : s.chunk ≠ some 0) (large : 0x80 ≤ a) (h : s.rest = [a, b] ++ more) :
    read s = (do
      let second ← Decoder.number 2
      ofNegated (packed (Int16.ofNat (ofBigEndian [a, b])) (UInt16.ofNat second)) :
        Decoder Fault Nat) { s with rest := more } := by
  have first : Decoder.number 2 s = .ok (ofBigEndian [a, b], { s with rest := more }) :=
    Decoder.number_ok moves rfl h
  have negative : ¬ 0 ≤ Int16.ofNat (ofBigEndian [a, b]) := fun nonneg =>
    UInt8.not_lt.2 large (pair_le_maxShort.1 ((nonneg_ofNat (pair_lt a b)).1 nonneg))
  unfold read
  rw [Decoder.bind_ok first, if_neg negative]

theorem read_four (moves : s.chunk ≠ some 0) (large : 0x80 ≤ a)
    (h : s.rest = [a, b, c, d] ++ more) :
    read s = (ofNegated (Int32.ofNat (ofBigEndian [a, b, c, d]))).map
      (·, { s with rest := more }) := by
  have second : Decoder.number 2 { s with rest := [c, d] ++ more } =
      .ok (ofBigEndian [c, d], { s with rest := more }) := Decoder.number_ok moves rfl rfl
  have front : s.rest = [a, b] ++ ([c, d] ++ more) := h
  rw [read_large moves large front, Decoder.bind_ok second, packed_ofNat _ (pair_lt c d),
    ← ofBigEndian_four]
  cases ofNegated (Int32.ofNat (ofBigEndian [a, b, c, d])) <;> rfl

/-- **Bytes that break off in a length end in the fault of the source.** -/
theorem read_cut (moves : s.chunk ≠ some 0) (cut : Cut s.rest) : read s = .error s.ending.fault := by
  generalize there : s.rest = rest at cut
  cases cut with
  | two short => exact Decoder.bind_error (Decoder.number_error moves (there ▸ short))
  | @four a b more large short =>
    have second : Decoder.number 2 { s with rest := more } = .error s.ending.fault :=
      Decoder.number_error moves short
    rw [read_large moves large there, Decoder.bind_error second]

/-- **A form is read as its length.** -/
theorem read_form (moves : s.chunk ≠ some 0) (form : Form front n) (h : s.rest = front ++ more) :
    read s = .ok (n, { s with rest := more }) := by
  cases form with
  | short small => exact read_pair moves small h
  | @long a b c d _ large allowed value =>
    have other := mt (ofNat_eq_minValue (four_lt a b c d)).1 (mt four_eq_formless.1 allowed)
    rw [read_four moves large h, ofNegated_ok value other]
    rfl

/-- **The formless bytes are refused.** -/
theorem read_formless (moves : s.chunk ≠ some 0) (h : s.rest = formless ++ more) :
    read s = .error .lengthOutOfRange := by
  have smallest : ofNegated (Int32.ofNat (ofBigEndian formless)) = .error .lengthOutOfRange := rfl
  rw [read_four moves (by decide) h]
  exact congrArg _ smallest

theorem read_cases (moves : s.chunk ≠ some 0) :
    (∃ front more n, Form front n ∧ s.rest = front ++ more) ∨
      (∃ more, s.rest = formless ++ more) ∨ read s = .error s.ending.fault :=
  (bytes_cases s.rest).imp_right (.imp_right (read_cut moves))

end Reading

end Length

end BehaviorGraph
