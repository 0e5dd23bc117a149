import BehaviorGraph.BitSet

/-!
# Members of bit sets

What an insertion changes, and what the list of members holds.

* `BitSet.contains_insert`, `BitSet.wordCount_insert`;
* **`BitSet.mem_toList`**, **`BitSet.pairwise_toList`**: the list holds exactly the members, in
  strictly ascending order.
-/

namespace BehaviorGraph

namespace BitSet

@[simp] theorem contains_empty (i : Nat) : empty.contains i = false := by simp [contains, empty]

/-! ## Insertion -/

@[simp] theorem wordCount_insert (s : BitSet) (i : Nat) :
    (s.insert i).wordCount = max s.wordCount (i / 64 + 1) := by
  simp only [insert, wordCount, padded, Array.size_modify, Array.size_append, Array.size_replicate]
  omega

theorem testBit_one_shiftLeft {i : Nat} (hi : i < 64) (j : Nat) :
    ((1 : UInt64) <<< i.toUInt64).toNat.testBit j = decide (i = j) := by
  have bound : (2 : Nat) ^ i < 2 ^ 64 := Nat.pow_lt_pow_right (by decide) hi
  have amount : i.toUInt64.toNat % 64 = i := by
    rw [UInt64.toNat_ofNat', Nat.mod_eq_of_lt (Nat.lt_trans hi (by decide)), Nat.mod_eq_of_lt hi]
  rw [UInt64.toNat_shiftLeft, amount, UInt64.toNat_one, Nat.shiftLeft_eq, Nat.one_mul,
    Nat.mod_eq_of_lt bound, Nat.testBit_two_pow]

theorem getD_padded (s : BitSet) (count k : Nat) :
    (s.padded count).getD k 0 = s.words.getD k 0 := by
  simp only [padded, Array.getD_eq_getD_getElem?, Array.getElem?_append, Array.getElem?_replicate]
  by_cases h : k < s.words.size
  · simp [h]
  · rw [if_neg h, Array.getElem?_eq_none (Nat.le_of_not_lt h)]
    split <;> rfl

theorem getD_insert (s : BitSet) (i k : Nat) :
    (s.insert i).words.getD k 0 =
      if i / 64 = k then s.words.getD k 0 ||| 1 <<< (i % 64).toUInt64 else s.words.getD k 0 := by
  have grown : i / 64 < (s.padded (i / 64 + 1)).size := by simp [padded]; omega
  rw [← getD_padded s (i / 64 + 1) k]
  simp only [insert, Array.getD_eq_getD_getElem?, Array.getElem?_modify]
  split
  · subst k
    simp [grown]
  · rfl

@[simp] theorem contains_insert (s : BitSet) (i j : Nat) :
    (s.insert i).contains j = (s.contains j || decide (i = j)) := by
  simp only [contains, getD_insert]
  split
  · have same : i % 64 = j % 64 ↔ i = j := by omega
    rw [UInt64.toNat_or, Nat.testBit_or, testBit_one_shiftLeft (Nat.mod_lt i (by decide)),
      decide_eq_decide.2 same]
  · have differ : i ≠ j := by omega
    simp [differ]

/-! ## The members in order -/

theorem testBit_sub_base {base n i : Nat} (h : base < i) :
    n.testBit (i - base) = (n / 2).testBit (i - (base + 1)) := by
  rw [show i - base = i - (base + 1) + 1 by omega, Nat.testBit_succ]

theorem mem_onesFrom {base n i : Nat} :
    i ∈ onesFrom base n ↔ base ≤ i ∧ n.testBit (i - base) = true := by
  fun_induction onesFrom base n with
  | case1 base => simp
  | case2 base n zero odd ih =>
    rw [List.mem_cons, ih]
    rcases Nat.lt_trichotomy base i with lt | rfl | gt
    · simp [testBit_sub_base lt, Nat.le_of_lt lt, Nat.succ_le_of_lt lt, Nat.ne_of_gt lt]
    · simp [odd]
    · simp [Nat.not_le_of_lt gt, Nat.not_le_of_lt (Nat.lt_succ_of_lt gt), Nat.ne_of_lt gt]
  | case3 base n zero even ih =>
    rw [ih]
    rcases Nat.lt_trichotomy base i with lt | rfl | gt
    · simp [testBit_sub_base lt, Nat.le_of_lt lt, Nat.succ_le_of_lt lt]
    · simp only [Nat.sub_self, Nat.testBit_zero, even, decide_false, Bool.false_eq_true,
        Nat.not_succ_le_self, false_and, and_false]
    · simp [Nat.not_le_of_lt gt, Nat.not_le_of_lt (Nat.lt_succ_of_lt gt)]

theorem pairwise_onesFrom (base n : Nat) : (onesFrom base n).Pairwise (· < ·) := by
  fun_induction onesFrom base n with
  | case1 base => exact .nil
  | case2 base n zero odd ih =>
    exact .cons (fun i hi => by have := (mem_onesFrom.1 hi).1; omega) ih
  | case3 base n zero even ih => exact ih

theorem lt_of_mem_onesFrom {base i : Nat} {word : UInt64} (h : i ∈ onesFrom base word.toNat) :
    i < base + 64 := by
  obtain ⟨_, set⟩ := mem_onesFrom.1 h
  refine Nat.lt_of_not_le fun past => ?_
  have small : word.toNat < 2 ^ (i - base) :=
    Nat.lt_of_lt_of_le word.toNat_lt (Nat.pow_le_pow_right (by decide) (by omega))
  simp [Nat.testBit_lt_two_pow small] at set

/-- **The list holds exactly the members.** -/
theorem mem_toList {s : BitSet} {i : Nat} : i ∈ s.toList ↔ s.contains i = true := by
  simp only [toList, contains, List.mem_flatMap, Prod.exists, List.mem_zipIdx_iff_getElem?,
    Array.getElem?_toList, Array.getD_eq_getD_getElem?]
  constructor
  · rintro ⟨word, k, there, found⟩
    have low := (mem_onesFrom.1 found).1
    have high := lt_of_mem_onesFrom found
    obtain rfl : k = i / 64 := by omega
    rw [there, Option.getD_some, show i % 64 = i - 64 * (i / 64) by omega]
    exact (mem_onesFrom.1 found).2
  · intro set
    cases there : s.words[i / 64]? with
    | none => simp [there] at set
    | some word =>
      rw [there, Option.getD_some, show i % 64 = i - 64 * (i / 64) by omega] at set
      exact ⟨word, i / 64, there, mem_onesFrom.2 ⟨by omega, set⟩⟩

/-- **The list is strictly ascending.** -/
theorem pairwise_toList (s : BitSet) : s.toList.Pairwise (· < ·) := by
  rw [toList, List.pairwise_flatMap]
  refine ⟨fun entry _ => pairwise_onesFrom _ _, ?_⟩
  rw [List.pairwise_iff_getElem]
  intro i j hi hj lt a ha b hb
  simp only [List.getElem_zipIdx] at ha hb
  have := lt_of_mem_onesFrom ha
  have := (mem_onesFrom.1 hb).1
  omega

end BitSet

end BehaviorGraph
