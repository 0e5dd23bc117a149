import BehaviorGraph.Node
import BehaviorGraph.Proofs.Predicate.Positions

/-!
# Asking for action predicates

An action predicate of an edge is asked for by its edge and its index. A node tests its bit against
the bits of all edges, a view tests the edge; both test the index. Several predicates are asked for
one after another, up to the first that does not hold.

* `Layout.position_lt_iff`, `Layout.actionBit_lt_bitCount_iff`: one test of the bit is as good as one
  of the edge;
* **`Node.action_domain`**: a node and its view answer the same questions, and answer them alike;
* `Truths.allActions_eq`: asking for several predicates without a look at the edge;
* **`Node.allActions_inTurn`**: asking for several predicates is asking for each in turn.
-/

namespace BehaviorGraph

/-! ## Positions within the bits of the edges -/

namespace Layout

variable {l : Layout} {edge i count : Nat}

/-- The predicates of an edge have their bits below the end of the bits of `count` edges only if the
edge is one of these. -/
theorem position_lt_iff (hi : i < l.actions) :
    l.position edge i < l.states + l.actions * count ↔ edge < count := by
  constructor
  · intro below
    apply Nat.lt_of_not_le
    intro behind
    have skipped : l.actions * count ≤ l.actions * edge := Nat.mul_le_mul_left _ behind
    unfold position at below
    omega
  · intro inside
    exact position_lt inside hi

theorem actionBit_outside (hi : l.actions ≤ i) :
    l.actionBit edge i = .error (.noSuchActionPredicate i l.actions) :=
  if_neg (Nat.not_lt_of_le hi)

theorem eq_of_actionBit {bit : Nat} (h : l.actionBit edge i = .ok bit) :
    i < l.actions ∧ bit = l.position edge i := by
  unfold actionBit at h
  split at h
  next hi =>
    obtain ⟨base, first, sum⟩ := exists_of_bind_ok h
    rw [eq_of_checked sum, eq_of_actionBase first]
    exact ⟨hi, rfl⟩
  next => cases h

/-- The test of a bit against the number of bits is passed by the predicates of the edges there are,
and by no others. -/
theorem actionBit_lt_bitCount_iff (room : l.states + l.actions * count < Size.limit) :
    (∃ bit bits, l.actionBit edge i = .ok bit ∧ l.bitCount count = .ok bits ∧ bit < bits) ↔
      edge < count ∧ i < l.actions := by
  constructor
  · rintro ⟨bit, bits, flat, all, below⟩
    obtain ⟨hi, rfl⟩ := eq_of_actionBit flat
    rw [bitCount_ok room] at all
    cases all
    exact ⟨(position_lt_iff hi).1 below, hi⟩
  · rintro ⟨inside, hi⟩
    exact ⟨_, _, actionBit_ok room inside hi, bitCount_ok room, position_lt inside hi⟩

end Layout

namespace Node

/-! ## One predicate -/

section Asking

variable {n : Node} {l : Layout} {k i : Nat} (room : l.states + l.actions * n.edgeCount < Size.limit)

section Inside

variable (hk : k < n.edgeCount) (hi : i < l.actions)

include room hk hi

theorem truths_action_ok :
    n.truths.action l k i = .ok (n.truths.bits.contains (l.position k i)) := by
  rw [Truths.action, Layout.actionBit_ok room hk hi]
  rfl

theorem action_ok : n.action l k i = .ok (n.truths.bits.contains (l.position k i)) := by
  rw [action, Layout.actionBit_ok room hk hi, Layout.bitCount_ok room, ← truths_action_ok room hk hi]
  exact if_pos (Layout.position_lt hk hi)

theorem view_action_ok :
    (n.view l).action k i = .ok (n.truths.bits.contains (l.position k i)) := by
  rw [← truths_action_ok room hk hi]
  exact if_pos hk

end Inside

theorem truths_action_outside (hi : l.actions ≤ i) :
    n.truths.action l k i = .error (.noSuchActionPredicate i l.actions) := by
  rw [Truths.action, Layout.actionBit_outside hi]
  rfl

theorem action_outside (hi : l.actions ≤ i) :
    n.action l k i = .error (.noSuchActionPredicate i l.actions) := by
  rw [action, Layout.actionBit_outside hi]
  rfl

include room in
/-- Behind the edges, the bit is either no size any more or behind the bits of the edges. -/
theorem action_behind (hk : n.edgeCount ≤ k) : ∃ misuse, n.action l k i = .error misuse := by
  unfold action
  cases flat : l.actionBit k i with
  | error misuse => exact ⟨misuse, rfl⟩
  | ok bit =>
    obtain ⟨hi, rfl⟩ := Layout.eq_of_actionBit flat
    have behind : ¬ l.position k i < l.states + l.actions * n.edgeCount := by
      rw [Layout.position_lt_iff hi]
      omega
    refine ⟨.bitNotCommitted k n.edgeCount, ?_⟩
    rw [Layout.bitCount_ok room]
    exact if_neg behind

theorem view_action_outside (hk : k < n.edgeCount) (hi : l.actions ≤ i) :
    (n.view l).action k i = .error (.noSuchActionPredicate i l.actions) := by
  rw [← truths_action_outside (n := n) (k := k) hi]
  exact if_pos hk

theorem view_action_behind (hk : n.edgeCount ≤ k) :
    (n.view l).action k i = .error (.edgeNotCommitted k n.edgeCount) :=
  if_neg (Nat.not_lt_of_le hk)

include room in
theorem action_error_iff :
    (∃ misuse, n.action l k i = .error misuse) ↔ n.edgeCount ≤ k ∨ l.actions ≤ i := by
  constructor
  · rintro ⟨misuse, refused⟩
    apply Decidable.byContradiction
    intro inside
    rw [action_ok room (by omega) (by omega)] at refused
    cases refused
  · rintro (hk | hi)
    · exact action_behind room hk
    · exact ⟨_, action_outside hi⟩

include room in
theorem view_action_error_iff :
    (∃ misuse, (n.view l).action k i = .error misuse) ↔ n.edgeCount ≤ k ∨ l.actions ≤ i := by
  constructor
  · rintro ⟨misuse, refused⟩
    apply Decidable.byContradiction
    intro inside
    rw [view_action_ok room (by omega) (by omega)] at refused
    cases refused
  · intro outside
    by_cases hk : n.edgeCount ≤ k
    · exact ⟨_, view_action_behind hk⟩
    · exact ⟨_, view_action_outside (Nat.lt_of_not_le hk) (by omega)⟩

end Asking

/-- **A node and its view answer the same questions about single action predicates, and answer them
alike**, by the bit where the predicate is kept. -/
theorem action_domain (n : Node) (l : Layout) (k i : Nat)
    (room : l.states + l.actions * n.edgeCount < Size.limit) :
    ((∃ misuse, n.action l k i = .error misuse) ↔ n.edgeCount ≤ k ∨ l.actions ≤ i) ∧
    ((∃ misuse, (n.view l).action k i = .error misuse) ↔ n.edgeCount ≤ k ∨ l.actions ≤ i) ∧
    (k < n.edgeCount → i < l.actions →
      n.action l k i = .ok (n.truths.bits.contains (l.states + l.actions * k + i)) ∧
      (n.view l).action k i = .ok (n.truths.bits.contains (l.states + l.actions * k + i))) ∧
    ((∃ bit bits, l.actionBit k i = .ok bit ∧ l.bitCount n.edgeCount = .ok bits ∧ bit < bits) ↔
      k < n.edgeCount ∧ i < l.actions) := by
  refine ⟨action_error_iff room, view_action_error_iff room, ?_,
    Layout.actionBit_lt_bitCount_iff room⟩
  intro hk hi
  exact ⟨action_ok room hk hi, view_action_ok room hk hi⟩

/-- A node with one edge, and bit 63 set. -/
def lone : Node := ⟨default, .ofCommitted [default], ⟨⟨#[0x8000000000000000]⟩⟩⟩

/-- The layout with the most predicates for one edge and one state predicate. Behind the edge, the
second bit is no size any more. -/
theorem lone_action_domain :
    let l : Layout := ⟨1, Size.limit - 2⟩
    l.states + l.actions * lone.edgeCount < Size.limit ∧
      lone.action l 0 62 = .ok true ∧ (lone.view l).action 0 62 = .ok true ∧
      (∃ misuse, lone.action l 1 0 = .error misuse) ∧
      (∃ misuse, (lone.view l).action 1 0 = .error misuse) ∧
      ∃ misuse, lone.action l 1 1 = .error misuse := by
  intro l
  have room : l.states + l.actions * lone.edgeCount < Size.limit := by decide
  obtain ⟨-, -, asked, -⟩ := action_domain lone l 0 62 room
  obtain ⟨refused, refused', -, -⟩ := action_domain lone l 1 0 room
  obtain ⟨overflows, -, -, -⟩ := action_domain lone l 1 1 room
  have held : lone.truths.bits.contains (l.states + l.actions * 0 + 62) = true := by decide
  obtain ⟨raw, view⟩ := asked (by decide) (by decide)
  rw [held] at raw view
  refine ⟨room, raw, view, refused.2 (.inl ?_), refused'.2 (.inl ?_), overflows.2 (.inl ?_)⟩
  all_goals decide

end Node

/-! ## Several predicates -/

theorem Truths.allActions_eq (t : Truths) (l : Layout) (k : Nat) (is : List Nat) :
    t.allActions l k is = is.allM (t.action l k) := by
  induction is with
  | nil => rfl
  | cons i is ih =>
    rw [allActions, ih, List.allM]
    congr 1
    funext holds
    cases holds <;> rfl

namespace Node

section Listed

variable {n : Node} {l : Layout} {k : Nat} (room : l.states + l.actions * n.edgeCount < Size.limit)
  (hk : k < n.edgeCount)

include room hk

theorem action_answers_iff {i : Nat} :
    (∃ holds, n.action l k i = .ok holds) ↔ i < l.actions := by
  constructor
  · rintro ⟨holds, answer⟩
    apply Nat.lt_of_not_le
    intro hi
    rw [action_outside hi] at answer
    cases answer
  · intro hi
    exact ⟨_, action_ok room hk hi⟩

theorem action_eq_error_iff {i : Nat} {misuse : Misuse} :
    n.action l k i = .error misuse ↔
      l.actions ≤ i ∧ misuse = .noSuchActionPredicate i l.actions := by
  constructor
  · intro refused
    obtain hk' | hi := (action_error_iff room).1 ⟨misuse, refused⟩
    · omega
    · rw [action_outside hi] at refused
      cases refused
      exact ⟨hi, rfl⟩
  · rintro ⟨hi, rfl⟩
    exact action_outside hi

/-- The truths of a node are asked alike without a test of the edge. -/
theorem truths_action_eq : n.truths.action l k = n.action l k := by
  funext i
  by_cases hi : i < l.actions
  · rw [truths_action_ok room hk hi, action_ok room hk hi]
  · rw [truths_action_outside (by omega), action_outside (by omega)]

theorem allActions_eq (is : List Nat) : n.allActions l k is = is.allM (n.action l k) := by
  rw [allActions, Truths.allActions_eq, truths_action_eq room hk]

theorem allActions_ok {is : List Nat} (inside : ∀ i ∈ is, i < l.actions) :
    n.allActions l k is = .ok (is.all fun i => n.truths.bits.contains (l.position k i)) := by
  rw [allActions_eq room hk]
  apply allM_ok
  intro i there
  exact action_ok room hk (inside i there)

end Listed

/-- **To ask for several action predicates of an edge is to ask for each in turn**, up to the first
that is not answered with yes. -/
theorem allActions_inTurn (n : Node) (l : Layout) (k : Nat)
    (room : l.states + l.actions * n.edgeCount < Size.limit) (hk : k < n.edgeCount)
    (is : List Nat) :
    n.allActions l k is = is.allM (n.action l k) ∧
    (n.allActions l k is = .ok true ↔ ∀ i ∈ is, n.action l k i = .ok true) ∧
    (n.allActions l k is = .ok false ↔ ∃ front i back, is = front ++ i :: back ∧
      (∀ j ∈ front, j < l.actions) ∧ n.action l k i = .ok false) ∧
    (∀ misuse, n.allActions l k is = .error misuse ↔ ∃ front i back, is = front ++ i :: back ∧
      (∀ j ∈ front, n.action l k j = .ok true) ∧ l.actions ≤ i ∧
        misuse = .noSuchActionPredicate i l.actions) ∧
    ∀ is' : List Nat, is.Perm is' → (∀ i ∈ is, i < l.actions) →
      n.allActions l k is' = n.allActions l k is := by
  have inTurn := allActions_eq room hk is
  refine ⟨inTurn, ?_, ?_, ?_, ?_⟩
  · rw [inTurn, allM_eq_true_iff]
  · rw [inTurn, allM_eq_false_iff]
    simp only [action_answers_iff room hk]
  · intro misuse
    rw [inTurn, allM_eq_error_iff]
    simp only [action_eq_error_iff room hk]
  · intro is' same inside
    have inside' : ∀ i ∈ is', i < l.actions := by
      intro i there
      exact inside i (same.mem_iff.2 there)
    rw [allActions_ok room hk inside, allActions_ok room hk inside', same.all_eq]

/-- The first predicate holds, the second does not, and the third is outside the layout. -/
theorem lone_allActions :
    let l : Layout := ⟨1, 64⟩
    l.states + l.actions * lone.edgeCount < Size.limit ∧ 0 < lone.edgeCount ∧
      lone.allActions l 0 [62, 62] = .ok true ∧ lone.allActions l 0 [62, 5, 64] = .ok false ∧
      lone.allActions l 0 [62, 64, 5] = .error (.noSuchActionPredicate 64 64) := by
  intro l
  have room : l.states + l.actions * lone.edgeCount < Size.limit := by decide
  have hk : 0 < lone.edgeCount := by decide
  have yes : lone.action l 0 62 = .ok true := by cbv
  have no : lone.action l 0 5 = .ok false := by cbv
  obtain ⟨-, all, -, -, -⟩ := allActions_inTurn lone l 0 room hk [62, 62]
  obtain ⟨-, -, some, -, -⟩ := allActions_inTurn lone l 0 room hk [62, 5, 64]
  obtain ⟨-, -, -, refused, -⟩ := allActions_inTurn lone l 0 room hk [62, 64, 5]
  refine ⟨room, hk, all.2 ?_, some.2 ⟨[62], 5, [64], rfl, ?_, no⟩,
    (refused _).2 ⟨[62], 64, [5], rfl, ?_, Nat.le_refl 64, rfl⟩⟩
  · simp [yes]
  · simp [l]
  · simp [yes]

end Node

end BehaviorGraph
