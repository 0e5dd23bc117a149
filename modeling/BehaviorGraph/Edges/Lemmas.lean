import BehaviorGraph.Edges

/-!
# Committed edges and reserved slots

The flat array with its cursor stands for a list of committed edges and a number of reserved slots.
`reserve` adds to the number, `push` adds to the list and takes one off the number, and `compact`
sets the number to zero.

* `Edges.length_committed`, `Edges.allocation_eq`: the list and the number fix count and cursor;
* `Edges.committed_push` and its like: one equation for each operation and each view.
-/

namespace BehaviorGraph

namespace Edges

variable (e : Edges)

theorem count_le : e.count ≤ e.slots.size := by
  unfold count
  split
  · exact Nat.le_refl _
  · exact Nat.le_of_lt (e.next_lt _ ‹_›)

@[simp] theorem length_committed : e.committed.length = e.count := by
  simp [committed, e.count_le]

theorem count_add_reserved : e.count + e.reserved = e.slots.size :=
  Nat.add_sub_of_le e.count_le

theorem allocation_eq :
    e.allocation = if e.reserved = 0 then .settled else .pending e.count := by
  cases there : e.allocation with
  | settled => simp [reserved, count, there]
  | pending next =>
    have := e.next_lt next there
    have : e.slots.size - next ≠ 0 := by omega
    simp [reserved, count, there, this]

@[simp] theorem committed_ofCommitted (targets : List NodeId) :
    (ofCommitted targets).committed = targets := by
  simp [committed, count, ofCommitted]

@[simp] theorem reserved_ofCommitted (targets : List NodeId) :
    (ofCommitted targets).reserved = 0 := by
  simp [reserved, count, ofCommitted]

/-! ## What the operations do to the committed edges and the reserved slots -/

@[simp] theorem count_reserve (n : Nat) : (e.reserve n).count = e.count := by
  unfold reserve
  split
  · rfl
  · simp only [count]
    cases e.allocation <;> rfl

@[simp] theorem committed_reserve (n : Nat) : (e.reserve n).committed = e.committed := by
  rw [committed, count_reserve]
  unfold Edges.reserve
  split
  · rfl
  · simp [committed, e.count_le]

@[simp] theorem reserved_reserve (n : Nat) : (e.reserve n).reserved = e.reserved + n := by
  have := e.count_le
  rw [reserved, count_reserve, reserved]
  unfold Edges.reserve
  split
  · omega
  · simp only [Array.size_append, Array.size_replicate]
    omega

@[simp] theorem push_fst (target : NodeId) : (e.push target).1 = e.count := by
  unfold push count
  split <;> simp [*]

@[simp] theorem count_push (target : NodeId) : (e.push target).2.count = e.count + 1 := by
  unfold push
  split
  · simp [count, *]
  · have := e.next_lt _ ‹_›
    rename_i next there
    by_cases last : next + 1 = e.slots.size <;> simp [count, there, last]

@[simp] theorem committed_push (target : NodeId) :
    (e.push target).2.committed = e.committed ++ [target] := by
  rw [committed, count_push]
  unfold push
  split
  · rename_i there
    simp [committed, count, there, List.take_of_length_le]
  · rename_i next there
    have := e.next_lt next there
    simp [committed, count, there, List.take_add_one, this, List.take_set_of_le]

@[simp] theorem reserved_push (target : NodeId) :
    (e.push target).2.reserved = e.reserved - 1 := by
  rw [reserved, count_push, reserved]
  unfold push
  split
  · rename_i there
    simp [count, there]
  · rename_i next there
    simp [count, there]
    omega

@[simp] theorem compact_fst : e.compact.1 = e.reserved := by
  cases there : e.allocation <;> simp [compact, reserved, count, there]

@[simp] theorem committed_compact : e.compact.2.committed = e.committed := by
  cases there : e.allocation with
  | settled => simp [Edges.compact, there]
  | pending next =>
    have := Nat.le_of_lt (e.next_lt next there)
    simp [Edges.compact, committed, count, there, this]

@[simp] theorem reserved_compact : e.compact.2.reserved = 0 := by
  cases there : e.allocation <;> simp [compact, reserved, count, there]

end Edges

end BehaviorGraph
