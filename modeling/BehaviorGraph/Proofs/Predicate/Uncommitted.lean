import BehaviorGraph.BitSet.Lemmas
import BehaviorGraph.Proofs.Predicate.Queries

/-!
# Asking about edges that were never committed

A view answers no question about an edge past the committed ones, and neither does a node that is
asked for one action predicate. A node that is asked for several does not look at the edge: it reads
the bits where that edge would have its predicates, until one is not set, and so it may well answer.
Only an index outside the layout, or a bit that is no size any more, makes it refuse.

* `Layout.Keeps`, `Layout.actionBit_eq_ok_iff`: the predicates that have a bit;
* `Truths.action_eq_ok_iff`, `Truths.action_refused_iff`: one predicate, whatever the edge;
* `Truths.allActions_refused_iff`: several predicates, whatever the edge;
* `Node.allActions_behind`: the answer of a node behind its edges;
* **`Node.allActions_agree_iff`**: when a node and its view give the same answer for several;
* `Node.allActions_uncommitted`: a node that answers where its view refuses.
-/

namespace BehaviorGraph

namespace Layout

variable {l : Layout} {edge i bit : Nat}

/-- The layout has action predicate `i`, and its bit along the edge is a size. -/
structure Keeps (l : Layout) (edge i : Nat) : Prop where
  inside : i < l.actions
  size : l.position edge i < Size.limit

theorem actionBit_eq_ok_iff :
    l.actionBit edge i = .ok bit ↔ l.Keeps edge i ∧ bit = l.position edge i := by
  constructor
  · intro flat
    obtain ⟨inside, rfl⟩ := eq_of_actionBit flat
    rw [actionBit, if_pos inside] at flat
    obtain ⟨base, first, sum⟩ := exists_of_bind_ok flat
    rw [eq_of_actionBase first] at sum
    exact ⟨⟨inside, Size.lt_of_add_ok sum⟩, rfl⟩
  · rintro ⟨⟨inside, size⟩, rfl⟩
    unfold position at size
    rw [actionBit, if_pos inside, actionBase_ok (by omega)]
    exact Size.add_ok size

end Layout

/-! ## Without a look at the edge -/

namespace Truths

variable {t : Truths} {l : Layout} {k i : Nat}

theorem action_eq_ok_iff {holds : Bool} :
    t.action l k i = .ok holds ↔ l.Keeps k i ∧ t.bits.contains (l.position k i) = holds := by
  constructor
  · intro answer
    obtain ⟨bit, flat, value⟩ := exists_of_bind_ok answer
    obtain ⟨kept, rfl⟩ := Layout.actionBit_eq_ok_iff.1 flat
    exact ⟨kept, Except.ok.inj value⟩
  · rintro ⟨kept, rfl⟩
    rw [action, Layout.actionBit_eq_ok_iff.2 ⟨kept, rfl⟩]
    rfl

theorem action_refused_iff : (∃ misuse, t.action l k i = .error misuse) ↔ ¬ l.Keeps k i := by
  constructor
  · rintro ⟨misuse, refused⟩ kept
    cases refused.symm.trans (action_eq_ok_iff.2 ⟨kept, rfl⟩)
  · intro unkept
    cases answer : t.action l k i with
    | error misuse => exact ⟨misuse, rfl⟩
    | ok holds => exact absurd (action_eq_ok_iff.1 answer).1 unkept

/-- Several predicates are refused exactly if one is that has no bit, and the bits of all before it
are set. -/
theorem allActions_refused_iff {is : List Nat} :
    (∃ misuse, t.allActions l k is = .error misuse) ↔
      ∃ front i back, is = front ++ i :: back ∧
        (∀ j ∈ front, l.Keeps k j ∧ t.bits.contains (l.position k j) = true) ∧ ¬ l.Keeps k i := by
  simp only [allActions_eq, allM_eq_error_iff, action_eq_ok_iff]
  constructor
  · rintro ⟨misuse, front, i, back, split, set, refused⟩
    exact ⟨front, i, back, split, set, action_refused_iff.1 ⟨misuse, refused⟩⟩
  · rintro ⟨front, i, back, split, set, unkept⟩
    obtain ⟨misuse, refused⟩ := action_refused_iff.2 unkept
    exact ⟨misuse, front, i, back, split, set, refused⟩

end Truths

/-! ## Nodes and views -/

namespace Node

variable {n : Node} {l : Layout} {k : Nat} {is : List Nat}

theorem view_allActions (hk : k < n.edgeCount) :
    (n.view l).allActions k is = n.allActions l k is := if_pos hk

theorem view_allActions_behind (hk : n.edgeCount ≤ k) :
    (n.view l).allActions k is = .error (.edgeNotCommitted k n.edgeCount) :=
  if_neg (Nat.not_lt_of_le hk)

/-- Behind its edges a node without stray bits answers with no, as long as the first predicate it is
asked for has a bit. -/
theorem allActions_behind (hk : n.edgeCount ≤ k)
    (bounded : ∀ bit, n.truths.bits.contains bit = true → bit < l.states + l.actions * n.edgeCount)
    {i : Nat} (kept : l.Keeps k i) : n.allActions l k (i :: is) = .ok false := by
  have unset : n.truths.bits.contains (l.position k i) = false := by
    rw [Bool.eq_false_iff]
    intro set
    have := (Layout.position_lt_iff kept.inside).1 (bounded _ set)
    omega
  have no : n.truths.action l k i = .ok false := Truths.action_eq_ok_iff.2 ⟨kept, unset⟩
  rw [allActions, Truths.allActions_eq, allM_cons_of_ne (by simp [no]), no]

/-- **A node and its view agree on several action predicates if the edge is committed, and else only
if the node refuses, too.** -/
theorem allActions_agree_iff (n : Node) (l : Layout) (k : Nat) (is : List Nat) :
    ((n.allActions l k is).toOption = ((n.view l).allActions k is).toOption ↔
      k < n.edgeCount ∨ ∃ front i back, is = front ++ i :: back ∧
        (∀ j ∈ front, l.Keeps k j ∧ n.truths.bits.contains (l.position k j) = true) ∧
        ¬ l.Keeps k i) ∧
    (k < n.edgeCount → (n.view l).allActions k is = n.allActions l k is) ∧
    (n.edgeCount ≤ k → (n.view l).allActions k is = .error (.edgeNotCommitted k n.edgeCount)) := by
  refine ⟨?_, view_allActions, view_allActions_behind⟩
  rw [← Truths.allActions_refused_iff]
  by_cases hk : k < n.edgeCount
  · rw [view_allActions hk]
    exact iff_of_true rfl (.inl hk)
  · rw [view_allActions_behind (Nat.le_of_not_lt hk), or_iff_right hk]
    change (n.truths.allActions l k is).toOption = none ↔ _
    cases n.truths.allActions l k is with
    | error misuse => simp [Except.toOption]
    | ok holds => simp [Except.toOption]

/-- The node with one edge whose only action predicate is true. -/
def single : Node := ⟨default, .ofCommitted [default], ⟨⟨#[0b10]⟩⟩⟩

/-- A node with one edge answers about a second one, which its view refuses, and so does the node
itself for one predicate alone. -/
theorem allActions_uncommitted :
    let l : Layout := ⟨1, 1⟩
    (new default).addEdge l default (some [true]) = .ok single ∧
      l.states + l.actions * single.edgeCount < Size.limit ∧ single.edgeCount = 1 ∧
      single.allActions l 1 [0] = .ok false ∧
      (single.view l).allActions 1 [0] = .error (.edgeNotCommitted 1 1) ∧
      (single.allActions l 1 [0]).toOption ≠ ((single.view l).allActions 1 [0]).toOption ∧
      single.action l 1 0 = .error (.bitNotCommitted 1 1) ∧
      single.allActions l 1 [] = .ok true := by
  intro l
  have recorded : (new default).truths.recordActions l 0 [true] = .ok single.truths := by cbv
  have made : (new default).addEdge l default (some [true]) = .ok single := by
    unfold addEdge
    change ((new default).truths.recordActions l 0 [true] >>= _) = _
    rw [recorded]
    rfl
  have room : l.states + l.actions * single.edgeCount < Size.limit := by decide
  have bounded (bit : Nat) (set : single.truths.bits.contains bit = true) :
      bit < l.states + l.actions * single.edgeCount := by
    have members : single.truths.bits.toList = [1] := by cbv
    rw [← BitSet.mem_toList, members] at set
    cases List.mem_singleton.1 set
    decide
  have answer : single.allActions l 1 [0] = .ok false :=
    allActions_behind (Nat.le_refl 1) bounded ⟨by decide, by decide⟩
  have refusal : (single.view l).allActions 1 [0] = .error (.edgeNotCommitted 1 1) := by cbv
  refine ⟨made, room, rfl, answer, refusal, ?_, by cbv, rfl⟩
  rw [answer, refusal]
  exact Option.some_ne_none false

end Node

end BehaviorGraph
