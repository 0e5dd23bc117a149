import BehaviorGraph.BitSet.Lemmas
import Mathlib.Algebra.Group.Nat.Defs
import Mathlib.Data.List.Sort

/-!
# The members one after another

The members of a bit set can be had one at a time. The lowest one bit of the first word that has any
is the next member, and is cleared in a copy of this word; when no word has a bit left, there is no
next member. This gives out the list of members, from the first to the last.

* `BitSet.lowestBit`, `BitSet.cleared`: the lowest one bit of a word, and the word without it;
* `BitSet.onesFrom_eq_cons`: clearing a bit takes the first position off the list;
* `BitSet.Cursor`, `BitSet.Cursor.next?`: the words that are left, and the next member;
* `BitSet.Cursor.yields_iff`: what is given out until there is no next member;
* `BitSet.mem_take_toList`: the smallest members;
* **`BitSet.toList_enumerates`**: the list is what a cursor gives out, and holds the members in order.
-/

namespace BehaviorGraph

namespace BitSet

/-! ## The lowest bit of a word -/

/-- The position of the lowest one bit of a word that is not zero. -/
def lowestBit (word : UInt64) : Nat := word.toBitVec.ctz.toNat

/-- The word without its lowest one bit. -/
def cleared (word : UInt64) : UInt64 := word &&& (word - 1)

section Word

variable {word : UInt64} (h : word ≠ 0)

theorem testBit_of_lt_lowestBit {i : Nat} (below : i < lowestBit word) :
    word.toNat.testBit i = false := BitVec.getLsbD_false_of_lt_ctz below

include h

theorem testBit_lowestBit : word.toNat.testBit (lowestBit word) = true :=
  BitVec.getLsbD_true_ctz_of_ne_zero fun zero => h (UInt64.toBitVec_inj.1 zero)

/-- The lowest one bit is followed by zeros only. -/
theorem mod_two_pow_lowestBit : word.toNat % 2 ^ (lowestBit word + 1) = 2 ^ lowestBit word := by
  apply Nat.eq_of_testBit_eq
  intro i
  rw [Nat.testBit_mod_two_pow, Nat.testBit_two_pow]
  rcases Nat.lt_trichotomy i (lowestBit word) with below | rfl | above
  · simp [testBit_of_lt_lowestBit below, Nat.ne_of_gt below]
  · simp [testBit_lowestBit h]
  · simp [Nat.not_lt_of_le (Nat.succ_le_of_lt above), Nat.ne_of_lt above]

/-- Subtracting one turns the lowest one bit into a zero, and the zeros below it into ones. -/
theorem testBit_cleared (i : Nat) :
    (cleared word).toNat.testBit i = (word.toNat.testBit i && decide (lowestBit word ≠ i)) := by
  have split := Nat.div_add_mod word.toNat (2 ^ (lowestBit word + 1))
  rw [mod_two_pow_lowestBit h] at split
  have positive := Nat.two_pow_pos (lowestBit word)
  have room : 2 ^ lowestBit word < 2 ^ (lowestBit word + 1) := Nat.pow_lt_pow_succ (by decide)
  have one : (1 : UInt64) ≤ word := by
    rw [UInt64.le_iff_toNat_le, ← split]
    exact Nat.le_add_left_of_le positive
  have less : word.toNat - 1 = 2 ^ (lowestBit word + 1) *
      (word.toNat / 2 ^ (lowestBit word + 1)) + (2 ^ lowestBit word - 1) := by omega
  rw [cleared, UInt64.toNat_and, UInt64.toNat_sub_of_le _ _ one, UInt64.toNat_one,
    Nat.testBit_and, less, Nat.testBit_two_pow_mul_add _ (by omega)]
  -- only above its lowest one bit does the word agree with the number before it
  rcases Nat.lt_trichotomy i (lowestBit word) with below | rfl | above
  · simp [testBit_of_lt_lowestBit below]
  · simp
  · rw [if_neg (Nat.not_lt_of_le above), Nat.testBit_div_two_pow, Nat.sub_add_cancel above,
      Bool.and_self, decide_eq_true (Nat.ne_of_lt above), Bool.and_true]

/-- **Clearing the lowest one bit takes the first position off the list.** -/
theorem onesFrom_eq_cons (base : Nat) :
    onesFrom base word.toNat =
      (base + lowestBit word) :: onesFrom base (cleared word).toNat := by
  have rest {i : Nat} : i ∈ onesFrom base (cleared word).toNat ↔
      base ≤ i ∧ word.toNat.testBit (i - base) = true ∧ lowestBit word ≠ i - base := by
    rw [mem_onesFrom, testBit_cleared h, Bool.and_eq_true, decide_eq_true_iff]
  -- both lists are ascending, so that it is enough to compare their members
  refine (pairwise_onesFrom _ _).eq_of_mem_iff (.cons ?_ (pairwise_onesFrom _ _)) fun i => ?_
  · intro i there
    obtain ⟨low, set, other⟩ := rest.1 there
    rcases Nat.lt_trichotomy (i - base) (lowestBit word) with below | same | above
    · rw [testBit_of_lt_lowestBit below] at set
      cases set
    · exact absurd same.symm other
    · omega
  · rw [mem_onesFrom, List.mem_cons, rest]
    constructor
    · rintro ⟨low, set⟩
      by_cases same : lowestBit word = i - base
      · exact .inl (by omega)
      · exact .inr ⟨low, set, same⟩
    · rintro (rfl | ⟨low, set, -⟩)
      · rw [Nat.add_sub_cancel_left]
        exact ⟨Nat.le_add_right _ _, testBit_lowestBit h⟩
      · exact ⟨low, set⟩

end Word

/-! ## One member at a time -/

/-- The words that are left of a bit set, each with its number. The first has lost the bits that
were given out. -/
abbrev Cursor : Type := List (UInt64 × Nat)

namespace Cursor

/-- The next member, and the words that are left after it. Words that are used up are passed over. -/
def next? : Cursor → Option (Nat × Cursor)
  | [] => none
  | (word, k) :: later =>
    if word = 0 then next? later
    else some (64 * k + lowestBit word, (cleared word, k) :: later)

/-- The numbers that are given out until there is no next one. -/
inductive Yields : Cursor → List Nat → Prop
  | ended {c : Cursor} : c.next? = none → Yields c []
  | yielded {c c' : Cursor} {i : Nat} {items : List Nat} :
    c.next? = some (i, c') → Yields c' items → Yields c (i :: items)

/-- The members in the words that are left. -/
def remaining (c : Cursor) : List Nat := c.flatMap fun (word, k) => onesFrom (64 * k) word.toNat

theorem remaining_cons (word : UInt64) (k : Nat) (later : Cursor) :
    remaining ((word, k) :: later) = onesFrom (64 * k) word.toNat ++ remaining later :=
  List.flatMap_cons

/-- A cursor ends when no member is left, and otherwise gives out the first. -/
theorem next?_cases (c : Cursor) :
    (c.next? = none ∧ c.remaining = []) ∨
      ∃ i c', c.next? = some (i, c') ∧ c.remaining = i :: c'.remaining := by
  induction c with
  | nil => exact .inl ⟨rfl, rfl⟩
  | cons entry later ih =>
    obtain ⟨word, k⟩ := entry
    by_cases zero : word = 0
    · subst zero
      have passed : next? ((0, k) :: later) = next? later := if_pos rfl
      have empty : onesFrom (64 * k) (0 : UInt64).toNat = [] := by rw [onesFrom]; rfl
      rwa [passed, remaining_cons, empty, List.nil_append]
    · refine .inr ⟨64 * k + lowestBit word, (cleared word, k) :: later, if_neg zero, ?_⟩
      rw [remaining_cons, remaining_cons, onesFrom_eq_cons zero, List.cons_append]

/-- **The members that are left are given out, and then no more.** -/
theorem yields_iff {c : Cursor} {items : List Nat} : c.Yields items ↔ items = c.remaining := by
  constructor
  · intro given
    induction given with
    | @ended c none_next =>
      obtain ⟨-, nothing⟩ | ⟨i, c', next, -⟩ := c.next?_cases
      · exact nothing.symm
      · cases none_next.symm.trans next
    | @yielded c c' i items here _ ih =>
      obtain ⟨none_next, -⟩ | ⟨i', c'', next, rest⟩ := c.next?_cases
      · cases none_next.symm.trans here
      · cases next.symm.trans here
        rw [rest, ih]
  · intro all
    induction items generalizing c with
    | nil =>
      obtain ⟨none_next, -⟩ | ⟨i, c', -, rest⟩ := c.next?_cases
      · exact .ended none_next
      · cases all.trans rest
    | cons i items ih =>
      obtain ⟨-, nothing⟩ | ⟨i', c', next, rest⟩ := c.next?_cases
      · cases all.trans nothing
      · cases all.trans rest
        exact .yielded next (ih rfl)

end Cursor

/-- All words of a bit set, before anything was given out. -/
def cursor (s : BitSet) : Cursor := s.words.toList.zipIdx

theorem remaining_cursor (s : BitSet) : s.cursor.remaining = s.toList := rfl

/-! ## The smallest members -/

/-- The first numbers of an ascending list are those with few smaller ones in it. -/
theorem mem_take_iff {members : List Nat} (ascending : members.Pairwise (· < ·)) {count i : Nat} :
    i ∈ members.take count ↔ i ∈ members ∧ members.countP (· < i) < count := by
  induction members generalizing count with
  | nil => simp
  | cons first members ih =>
    obtain ⟨least, ascending⟩ := List.pairwise_cons.1 ascending
    cases count with
    | zero => simp
    | succ count =>
      rw [List.take_succ_cons, List.mem_cons, List.mem_cons, ih ascending, List.countP_cons]
      by_cases same : i = first
      · subst same
        have none_below : members.countP (· < i) = 0 := by
          rw [List.countP_eq_zero]
          intro j there
          simp [Nat.le_of_lt (least j there)]
        simp [none_below]
      · rw [or_iff_right same, or_iff_right same]
        refine and_congr_right fun there => ?_
        rw [decide_eq_true (least i there), if_pos rfl, Nat.add_lt_add_iff_right]

/-- The members below a number are counted alike in the list and in the set. -/
theorem countP_toList (s : BitSet) (i : Nat) :
    s.toList.countP (· < i) = (List.range i).countP s.contains := by
  rw [List.countP_eq_length_filter, List.countP_eq_length_filter]
  congr 1
  refine (s.pairwise_toList.filter _).eq_of_mem_iff (List.pairwise_lt_range.filter _) fun j => ?_
  rw [List.mem_filter, List.mem_filter, mem_toList, List.mem_range, decide_eq_true_iff, and_comm]

/-- The first members of the list are those with few smaller members. -/
theorem mem_take_toList {s : BitSet} {count i : Nat} :
    i ∈ s.toList.take count ↔
      s.contains i = true ∧ (List.range i).countP s.contains < count := by
  rw [mem_take_iff s.pairwise_toList, mem_toList, countP_toList]

/-- **The members are had one at a time, in order.** A cursor gives out the ascending list of them,
and then ends. -/
theorem toList_enumerates (s : BitSet) :
    (∀ items, s.cursor.Yields items ↔ items = s.toList) ∧
    s.toList.Pairwise (· < ·) ∧
    (∀ i, i ∈ s.toList ↔ s.contains i = true) ∧
    ∀ count i, i ∈ s.toList.take count ↔
      s.contains i = true ∧ (List.range i).countP s.contains < count := by
  refine ⟨fun items => ?_, s.pairwise_toList, fun i => mem_toList, fun count i => mem_take_toList⟩
  rw [Cursor.yields_iff, remaining_cursor]

/-- A word with its lowest and its highest bit, between two zero words. -/
example : (⟨#[0, 0x8000000000000001, 0]⟩ : BitSet).toList = [64, 127] := by cbv

end BitSet

end BehaviorGraph
