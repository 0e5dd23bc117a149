import BehaviorGraph.Proofs.Wire.Fields

/-!
# The code of lengths

Every length that can be written is read off two byte strings if two bytes can hold it and it is not
zero, and off one if not. The shortest of them is written. All other bytes are refused, for one of two
reasons.

* `Length.forms`, `Length.mem_forms`, `Length.length_forms`: the byte strings of a length;
* `Length.read_eq_ok_iff`, `Length.read_eq_outOfRange_iff`, `Length.read_eq_endOfInput_iff`: what is
  read off given bytes;
* `Length.cut_iff`, `Length.pair_neg_iff`: the bytes that end too early, by the sign of the first two;
* **`Length.code_exact`**: reading and writing together.
-/

namespace BehaviorGraph

namespace Length

/-! ## The byte strings of a length -/

/-- The bytes that a length is read off, first those that it is written in. -/
def forms (n : Nat) : List (List UInt8) :=
  if n ≤ max then
    bytes n :: if 0 < n ∧ n ≤ maxShort then [bigEndian 4 (UInt32.size - n)] else []
  else []

section Forms

variable {n : Nat} {front : List UInt8}

theorem mem_forms : front ∈ forms n ↔ Form front n := by
  constructor
  · intro there
    rw [forms] at there
    split at there
    next few =>
      rcases List.mem_cons.1 there with rfl | there
      · exact form_bytes few
      · split at there
        next small =>
          rw [List.mem_singleton.1 there]
          exact form_negated small.1 few
        next => cases there
    next => cases there
  · intro form
    rw [forms, if_pos form.le_max, List.mem_cons]
    by_cases short : front.length = width n
    · exact .inl (form.eq_bytes short)
    right
    cases form with
    | short small => exact absurd (by rw [width, if_pos (pair_le_maxShort.2 small)]; rfl) short
    | @long a b c d _ large allowed value =>
      obtain ⟨packed, -⟩ := eq_of_signed large value
      have bound := four_lt a b c d
      have small : n ≤ maxShort := by
        apply Decidable.byContradiction
        intro big
        rw [width, if_neg big] at short
        exact short rfl
      rw [if_pos ⟨by omega, small⟩, List.mem_singleton, ← packed]
      exact (bigEndian_ofBigEndian [a, b, c, d]).symm

theorem length_forms (few : n ≤ max) :
    (forms n).length = if n = 0 ∨ maxShort < n then 1 else 2 := by
  rw [forms, if_pos few]
  by_cases small : 0 < n ∧ n ≤ maxShort
  · rw [if_pos small, if_neg (by omega)]
    rfl
  · rw [if_neg small, if_pos (by omega)]
    rfl

/-- A form that is not written is longer than the one that is. -/
theorem width_lt_of_ne (form : Form front n) (other : front ≠ bytes n) : width n < front.length := by
  rcases form.length_eq with same | longer
  · exact absurd (form.eq_bytes same) other
  · omega

theorem nodup_forms (n : Nat) : (forms n).Nodup := by
  rw [forms]
  split
  next =>
    split
    next small =>
      have longer : bytes n ≠ bigEndian 4 (UInt32.size - n) := by
        intro same
        have sizes := congrArg List.length same
        rw [length_bytes, width, if_pos small.2, length_bigEndian] at sizes
        cases sizes
      simpa using longer
    next => simp
  next => exact List.nodup_nil

theorem length_of_mem_forms (there : front ∈ forms n) : front.length = 2 ∨ front.length = 4 := by
  cases mem_forms.1 there with
  | short => exact .inl rfl
  | long => exact .inr rfl

end Forms

/-! ## What is read off given bytes -/

section Reading

variable {bytes : List UInt8} {n : Nat}

/-- The three kinds of bytes with what is read off each. -/
theorem outcome_cases (bytes : List UInt8) :
    (∃ front more n, Form front n ∧ bytes = front ++ more ∧
      read (.ofBytes bytes) = .ok (n, .ofBytes more)) ∨
    (formless <+: bytes ∧ read (.ofBytes bytes) = .error .lengthOutOfRange) ∨
    (Cut bytes ∧ read (.ofBytes bytes) = .error .endOfInput) := by
  have moves := Source.ofBytes_moves bytes
  rcases bytes_cases bytes with ⟨front, more, n, form, split⟩ | ⟨more, split⟩ | cut
  · exact .inl ⟨front, more, n, form, split, read_form moves form split⟩
  · exact .inr (.inl ⟨⟨more, split.symm⟩, read_formless moves split⟩)
  · exact .inr (.inr ⟨cut, read_cut moves cut⟩)

theorem read_eq_ok_iff {left : Source} : read (.ofBytes bytes) = .ok (n, left) ↔
    ∃ front more, front ∈ forms n ∧ bytes = front ++ more ∧ left = .ofBytes more := by
  constructor
  · intro whole
    obtain ⟨front, more, m, form, split, outcome⟩ | ⟨-, outcome⟩ | ⟨-, outcome⟩ :=
      outcome_cases bytes
    all_goals cases outcome.symm.trans whole
    exact ⟨front, more, mem_forms.2 form, split, rfl⟩
  · rintro ⟨front, more, there, split, rfl⟩
    exact read_form (Source.ofBytes_moves bytes) (mem_forms.1 there) split

theorem read_eq_outOfRange_iff :
    read (.ofBytes bytes) = .error .lengthOutOfRange ↔ formless <+: bytes := by
  constructor
  · intro refused
    obtain ⟨_, _, _, -, -, outcome⟩ | ⟨starts, -⟩ | ⟨-, outcome⟩ := outcome_cases bytes
    · cases outcome.symm.trans refused
    · exact starts
    · cases outcome.symm.trans refused
  · rintro ⟨more, split⟩
    exact read_formless (Source.ofBytes_moves bytes) split.symm

theorem read_eq_endOfInput_iff : read (.ofBytes bytes) = .error .endOfInput ↔ Cut bytes := by
  constructor
  · intro short
    obtain ⟨_, _, _, -, -, outcome⟩ | ⟨-, outcome⟩ | ⟨cut, -⟩ := outcome_cases bytes
    · cases outcome.symm.trans short
    · cases outcome.symm.trans short
    · exact cut
  · exact read_cut (Source.ofBytes_moves bytes)

theorem eq_of_read_error {fault : Fault} (failed : read (.ofBytes bytes) = .error fault) :
    fault = .lengthOutOfRange ∨ fault = .endOfInput := by
  obtain ⟨_, _, _, -, -, outcome⟩ | ⟨-, outcome⟩ | ⟨-, outcome⟩ := outcome_cases bytes
  all_goals cases outcome.symm.trans failed
  · exact .inl rfl
  · exact .inr rfl

/-- The first bit of two bytes is set if they are negative as a signed number. -/
theorem pair_neg_iff {a b : UInt8} : Int16.ofNat (ofBigEndian [a, b]) < 0 ↔ 0x80 ≤ a := by
  rw [← Int16.not_le, nonneg_ofNat (pair_lt a b), pair_le_maxShort, UInt8.not_lt]

theorem cut_iff : Cut bytes ↔
    bytes.length < 2 ∨ bytes.length < 4 ∧ Int16.ofNat (ofBigEndian (bytes.take 2)) < 0 := by
  constructor
  · intro cut
    cases cut with
    | two short => exact .inl short
    | four large short => exact .inr ⟨Nat.add_lt_add_right short 2, pair_neg_iff.2 large⟩
  · rintro (short | ⟨short, negative⟩)
    · exact .two short
    rcases bytes with _ | ⟨a, _ | ⟨b, more⟩⟩
    · exact .two (by simp)
    · exact .two (by simp)
    rw [List.length_cons, List.length_cons] at short
    exact .four (pair_neg_iff.1 negative) (by omega)

end Reading

/-- **Lengths and byte strings fit together.** Bytes start with a form of a length, are formless, or
end early, and a length has at most two forms. -/
theorem code_exact (bytes : List UInt8) (n : Nat) :
    (∀ left, read (.ofBytes bytes) = .ok (n, left) ↔
      ∃ front more, front ∈ forms n ∧ bytes = front ++ more ∧ left = .ofBytes more) ∧
    (read (.ofBytes bytes) = .error .lengthOutOfRange ↔ formless <+: bytes) ∧
    (read (.ofBytes bytes) = .error .endOfInput ↔
      bytes.length < 2 ∨ bytes.length < 4 ∧ Int16.ofNat (ofBigEndian (bytes.take 2)) < 0) ∧
    (∀ fault, read (.ofBytes bytes) = .error fault →
      fault = .lengthOutOfRange ∨ fault = .endOfInput) ∧
    (∀ front ∈ forms n, n ≤ max ∧ (front.length = 2 ∨ front.length = 4)) ∧
    (forms n).Nodup ∧
    (n ≤ max → (forms n).length = if n = 0 ∨ maxShort < n then 1 else 2) ∧
    (n ≤ max → ∃ written ∈ forms n, encode n = .ok written ∧ written.length = width n ∧
      (∀ front ∈ forms n, front ≠ written → written.length < front.length) ∧
      ∀ s : Sink, 0 < s.chunk →
        Field.write (.length n) s = (s.verdict written, s.filled written)) ∧
    (max < n → ∃ fault, fault.kind = .invalidInput ∧ encode n = .error fault ∧
      ∀ s : Sink, Field.write (.length n) s = (.error fault, s)) := by
  refine ⟨fun left => read_eq_ok_iff, read_eq_outOfRange_iff, read_eq_endOfInput_iff.trans cut_iff,
    fun fault => eq_of_read_error, ?_, nodup_forms n, length_forms, ?_, ?_⟩
  · intro front there
    exact ⟨(mem_forms.1 there).le_max, length_of_mem_forms there⟩
  · intro few
    have fits : (Field.length n).fits := decide_eq_true few
    refine ⟨Length.bytes n, mem_forms.2 (form_bytes few), ?_, length_bytes n, ?_, ?_⟩
    · rw [encode_eq, if_pos few]
    · intro front there other
      rw [length_bytes]
      exact width_lt_of_ne (mem_forms.1 there) other
    · intro s moves
      exact Field.write_of_fits fits moves
  · intro large
    have refused : encode n = .error (.lengthTooLarge n max) := by
      rw [encode_eq, if_neg (Nat.not_le_of_lt large)]
    refine ⟨_, rfl, refused, fun s => ?_⟩
    rw [Field.write, Field.encode, refused]

end Length

end BehaviorGraph
