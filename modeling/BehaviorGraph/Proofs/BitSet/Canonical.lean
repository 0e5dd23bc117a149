import BehaviorGraph.BitSet.Lemmas

/-!
# Insertions in any order

A bit set has as many words as its largest member asks for, or as it had from the start. So its words
do not tell in which order the members came, nor how often.

* `BitSet.ext_contains`: word count and members fix the words;
* `BitSet.contains_insertAll`, `BitSet.wordCount_insertAll_le`: what insertions in a row change;
* **`BitSet.insertAll_congr`**: the same members, inserted in whatever order, give the same words.
-/

namespace BehaviorGraph

namespace BitSet

theorem testBit_word (s : BitSet) {k j : Nat} (hj : j < 64) :
    (s.words.getD k 0).toNat.testBit j = s.contains (64 * k + j) := by
  rw [contains, show (64 * k + j) / 64 = k by omega, show (64 * k + j) % 64 = j by omega]

theorem word_congr {s t : BitSet} (same : ∀ i, s.contains i = t.contains i) (k : Nat) :
    s.words.getD k 0 = t.words.getD k 0 := by
  apply UInt64.toNat_inj.1
  apply Nat.eq_of_testBit_eq
  intro j
  by_cases hj : j < 64
  · rw [testBit_word s hj, testBit_word t hj, same]
  · have past (word : UInt64) : word.toNat.testBit j = false :=
      Nat.testBit_lt_two_pow (Nat.lt_of_lt_of_le word.toNat_lt
        (Nat.pow_le_pow_right (by decide) (Nat.le_of_not_lt hj)))
    rw [past, past]

/-- **The number of words and the members fix a bit set.** -/
theorem ext_contains {s t : BitSet} (count : s.wordCount = t.wordCount)
    (same : ∀ i, s.contains i = t.contains i) : s = t := by
  obtain ⟨words⟩ := s
  obtain ⟨words'⟩ := t
  congr 1
  apply Array.ext count
  intro k hk hk'
  have word := word_congr same k
  simpa only [Array.getD_eq_getD_getElem?, Array.getElem?_eq_getElem hk,
    Array.getElem?_eq_getElem hk', Option.getD_some] using word

/-! ## Insertions in a row -/

@[simp] theorem insertAll_nil (s : BitSet) : s.insertAll [] = s := rfl

theorem insertAll_append (s : BitSet) (first later : List Nat) :
    s.insertAll (first ++ later) = (s.insertAll first).insertAll later := List.foldl_append

theorem contains_insertAll {s : BitSet} {members : List Nat} {i : Nat} :
    (s.insertAll members).contains i = true ↔ s.contains i = true ∨ i ∈ members := by
  induction members generalizing s with
  | nil => simp
  | cons member members ih =>
    change ((s.insert member).insertAll members).contains i = true ↔ _
    rw [ih, contains_insert, Bool.or_eq_true, decide_eq_true_iff, List.mem_cons, or_assoc,
      eq_comm (a := i)]

theorem wordCount_insertAll_le {s : BitSet} {members : List Nat} {count : Nat} :
    (s.insertAll members).wordCount ≤ count ↔
      s.wordCount ≤ count ∧ ∀ i ∈ members, i / 64 < count := by
  induction members generalizing s with
  | nil => simp
  | cons member members ih =>
    change ((s.insert member).insertAll members).wordCount ≤ count ↔ _
    rw [ih, wordCount_insert, Nat.max_le, List.forall_mem_cons, and_assoc]
    rfl

theorem wordCount_le_insertAll (s : BitSet) (members : List Nat) :
    s.wordCount ≤ (s.insertAll members).wordCount :=
  (wordCount_insertAll_le.1 (Nat.le_refl _)).1

/-- **The words depend only on which members were inserted.** -/
theorem insertAll_congr (s : BitSet) {members members' : List Nat}
    (same : ∀ i, i ∈ members ↔ i ∈ members') : s.insertAll members = s.insertAll members' := by
  apply ext_contains
  · apply Nat.le_antisymm
    · have bound := wordCount_insertAll_le.1 (Nat.le_refl (s.insertAll members').wordCount)
      exact wordCount_insertAll_le.2 ⟨bound.1, fun i there => bound.2 i ((same i).1 there)⟩
    · have bound := wordCount_insertAll_le.1 (Nat.le_refl (s.insertAll members).wordCount)
      exact wordCount_insertAll_le.2 ⟨bound.1, fun i there => bound.2 i ((same i).2 there)⟩
  · intro i
    rw [Bool.eq_iff_iff, contains_insertAll, contains_insertAll, same i]

end BitSet

end BehaviorGraph
