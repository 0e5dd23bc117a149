import BehaviorGraph.BitSet.Lemmas
import BehaviorGraph.Proofs.Predicate.Queries

/-!
# The state predicates that hold

A view lists the state predicates that hold by going through the bits of the node up to the first that
is no state bit. As the bits come in ascending order and the state bits are the lowest, none is
missed.

* `takeWhile_lt_eq_filter`: the numbers below a bound are the front part of an ascending list;
* `PredicateView.pairwise_trueStates`, `PredicateView.mem_trueStates`: what a view lists;
* **`Node.trueStates_exact`**: the true state predicates of a node, and no action predicate.
-/

namespace BehaviorGraph

theorem takeWhile_lt_eq_filter {members : List Nat} (ascending : members.Pairwise (· < ·))
    (bound : Nat) : members.takeWhile (· < bound) = members.filter (· < bound) := by
  induction members with
  | nil => rfl
  | cons first members ih =>
    obtain ⟨least, ascending⟩ := List.pairwise_cons.1 ascending
    rw [List.takeWhile_cons, List.filter_cons]
    by_cases below : first < bound
    · have holds : decide (first < bound) = true := decide_eq_true below
      rw [if_pos holds, if_pos holds, ih ascending]
    · have fails : ¬ decide (first < bound) = true := by rwa [decide_eq_true_iff]
      have later : members.filter (· < bound) = [] := by
        rw [List.filter_eq_nil_iff]
        intro i there
        rw [decide_eq_true_iff]
        have := least i there
        omega
      rw [if_neg fails, if_neg fails, later]

namespace PredicateView

variable (p : PredicateView)

theorem trueStates_eq_filter :
    p.trueStates = p.truths.bits.toList.filter (· < p.layout.states) :=
  takeWhile_lt_eq_filter p.truths.bits.pairwise_toList _

theorem pairwise_trueStates : p.trueStates.Pairwise (· < ·) := by
  rw [trueStates_eq_filter]
  exact p.truths.bits.pairwise_toList.filter _

theorem state_ok {p : PredicateView} {i : Nat} (hi : i < p.layout.states) :
    p.state i = .ok (p.truths.bits.contains i) := by
  rw [state, Layout.stateBit, if_pos hi]
  rfl

theorem mem_trueStates {p : PredicateView} {i : Nat} :
    i ∈ p.trueStates ↔ i < p.layout.states ∧ p.state i = .ok true := by
  rw [trueStates_eq_filter, List.mem_filter, BitSet.mem_toList, decide_eq_true_iff, and_comm]
  refine and_congr_right fun hi => ?_
  rw [state_ok hi, Except.ok.injEq]

end PredicateView

/-- **The true state predicates are listed, each once and in ascending order**, and no action
predicate ever is. -/
theorem Node.trueStates_exact (n : Node) (l : Layout) :
    (n.view l).trueStates.Pairwise (· < ·) ∧
    (∀ i, i ∈ (n.view l).trueStates ↔ i < l.states ∧ (n.view l).state i = .ok true) ∧
    ∀ k i bit, l.actionBit k i = .ok bit → bit ∉ (n.view l).trueStates := by
  refine ⟨(n.view l).pairwise_trueStates, fun i => PredicateView.mem_trueStates, ?_⟩
  intro k i bit kept listed
  obtain ⟨-, rfl⟩ := Layout.eq_of_actionBit kept
  have below : l.position k i < l.states := (PredicateView.mem_trueStates.1 listed).1
  exact Nat.not_lt_of_le Layout.states_le_position below

/-- Bits 0 and 2 are state bits and bit 3 is the first action bit, all in one word. -/
example : ((⟨default, .ofCommitted [default], ⟨⟨#[0b1101]⟩⟩⟩ : Node).view ⟨3, 2⟩).trueStates =
    [0, 2] := by cbv

end BehaviorGraph
