import BehaviorGraph.Proofs.BitSet.Canonical
import BehaviorGraph.Proofs.Record.RoundTrip

/-!
# Comparing bit sets by words and by bytes

A bit set made by insertions has the words that its largest member asks for and no others, so sets
with the same members are the same words. These are read off the bytes that they are written in: as
far as words can be counted in a record, the bytes tell sets apart as well.

* `BitSet.encode_eq`, `BitSet.read_encode`, `BitSet.eq_of_encode`: words and bytes;
* `BitSet.wordCount_insertAll_empty`: the largest member and the number of words;
* `BitSet.words_eq_iff`: members and words;
* **`BitSet.insertAll_canonical`**: what can be told of insertions in a row.
-/

namespace BehaviorGraph

namespace BitSet

/-! ## Words and bytes -/

theorem encode_eq (s : BitSet) :
    s.encode =
      if s.wordCount ≤ Length.max then
        .ok (Length.bytes s.wordCount ++ s.words.toList.flatMap wordSpelling)
      else .error (.lengthTooLarge s.wordCount Length.max) := by
  rw [encode, fields_eq]
  split
  · rw [List.flatMap_def, ← List.flatten_cons]
    rfl
  · rfl

theorem exists_encode_iff {s : BitSet} :
    (∃ bytes, s.encode = .ok bytes) ↔ s.wordCount ≤ Length.max := by
  rw [encode_eq]
  split
  next few => exact iff_of_true ⟨_, rfl⟩ few
  next many => exact iff_of_false (fun ⟨_, written⟩ => by cases written) many

variable {s t : BitSet} {bytes : List UInt8}

theorem ext_words (same : s.words = t.words) : s = t := congrArg mk same

/-- **The words are read off the bytes that they are written in.** -/
theorem read_encode (written : s.encode = .ok bytes) :
    read (.ofBytes bytes) = .ok (s, .ofBytes []) := by
  have few := exists_encode_iff.1 ⟨bytes, written⟩
  rw [encode_eq, if_pos few] at written
  cases written
  have form : Length.Form (Length.bytes s.wordCount) s.words.toList.length :=
    Length.form_bytes few
  have whole : Length.bytes s.wordCount ++ s.words.toList.flatMap wordSpelling =
      Length.bytes s.wordCount ++ (s.words.toList.flatMap wordSpelling ++ []) := by
    rw [List.append_nil]
  exact read_ok nofun form whole

theorem eq_of_encode (written : s.encode = .ok bytes) (written' : t.encode = .ok bytes) :
    s = t := by
  have same := (read_encode written).symm.trans (read_encode written')
  cases same
  rfl

/-! ## Members and words -/

theorem contains_insertAll_empty {members : List Nat} {i : Nat} :
    (empty.insertAll members).contains i = true ↔ i ∈ members := by
  rw [contains_insertAll, contains_empty]
  exact or_iff_right Bool.false_ne_true

/-- There is no word for nothing, and otherwise the word of the largest member is the last. -/
theorem wordCount_insertAll_empty (members : List Nat) :
    (empty.insertAll members).wordCount = members.max?.elim 0 (· / 64 + 1) := by
  have least (count : Nat) : (empty.insertAll members).wordCount ≤ count ↔
      ∀ i ∈ members, i / 64 < count := by
    rw [wordCount_insertAll_le]
    exact and_iff_right (Nat.zero_le count)
  cases largest : members.max? with
  | none =>
    obtain rfl := List.max?_eq_none_iff.1 largest
    rfl
  | some last =>
    obtain ⟨there, above⟩ := List.max?_eq_some_iff.1 largest
    apply Nat.le_antisymm
    · refine (least _).2 fun i hi => Nat.lt_succ_of_le ?_
      exact Nat.div_le_div_right (above i hi)
    · exact (least _).1 (Nat.le_refl _) last there

theorem words_eq_iff {members members' : List Nat} :
    (empty.insertAll members).words = (empty.insertAll members').words ↔
      ∀ i, i ∈ members ↔ i ∈ members' := by
  constructor
  · intro same i
    rw [← contains_insertAll_empty, ← contains_insertAll_empty, contains, contains, same]
  · intro same
    rw [insertAll_congr empty same]

/-- **Insertions make one bit set of one set of numbers.** The members are what was inserted, and
they fix the words and the bytes. -/
theorem insertAll_canonical (members members' : List Nat) :
    (∀ (u : BitSet) (i j : Nat),
      (u.insert i).contains j = true ↔ u.contains j = true ∨ i = j) ∧
    let s := empty.insertAll members
    let t := empty.insertAll members'
    (∀ i, s.contains i = true ↔ i ∈ members) ∧
    s.wordCount = members.max?.elim 0 (· / 64 + 1) ∧
    (s.words = t.words ↔ ∀ i, i ∈ members ↔ i ∈ members') ∧
    (s.words = t.words ∧ s.encode = t.encode ↔ ∀ i, i ∈ members ↔ i ∈ members') ∧
    ((∃ bytes, s.encode = .ok bytes) ↔ s.wordCount ≤ Length.max) ∧
    ∀ bytes, s.encode = .ok bytes →
      (t.encode = .ok bytes ↔ ∀ i, i ∈ members ↔ i ∈ members') := by
  refine ⟨fun u i j => ?_, ?_⟩
  · rw [contains_insert, Bool.or_eq_true, decide_eq_true_iff]
  intro s t
  have words : s.words = t.words ↔ ∀ i, i ∈ members ↔ i ∈ members' := words_eq_iff
  refine ⟨fun i => contains_insertAll_empty, wordCount_insertAll_empty members, words, ?_,
    exists_encode_iff, fun bytes written => ?_⟩
  · rw [← words]
    refine and_iff_left_of_imp fun same => ?_
    rw [ext_words same]
  · rw [← words]
    constructor
    · intro written'
      rw [eq_of_encode written written']
    · intro same
      rw [← ext_words same, written]

end BitSet

end BehaviorGraph
