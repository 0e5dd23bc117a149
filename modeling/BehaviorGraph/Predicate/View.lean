import BehaviorGraph.Predicate.Truths

/-!
# Views of a node's predicates

The truths of a node read under one layout, with the number of its committed edges. A view answers
only about state predicates of the layout and about committed edges.

* `PredicateView.state`, `PredicateView.action`, `PredicateView.allActions`;
* `PredicateView.trueStates`: the state predicates that hold, ascending.
-/

namespace BehaviorGraph

/-- The truths of a node with `edgeCount` committed edges, under a fixed layout. -/
structure PredicateView where
  truths : Truths
  layout : Layout
  edgeCount : Nat

namespace PredicateView

/-- Whether state predicate `i` holds. -/
def state (p : PredicateView) (i : Nat) : Except Misuse Bool := do
  let bit ← p.layout.stateBit i
  .ok (p.truths.state bit)

/-- Whether action predicate `i` holds along the committed edge `n`. -/
def action (p : PredicateView) (n i : Nat) : Except Misuse Bool :=
  if n < p.edgeCount then p.truths.action p.layout n i
  else .error (.edgeNotCommitted n p.edgeCount)

/-- Whether all the listed action predicates hold along the committed edge `n`. -/
def allActions (p : PredicateView) (n : Nat) (is : List Nat) : Except Misuse Bool :=
  if n < p.edgeCount then p.truths.allActions p.layout n is
  else .error (.edgeNotCommitted n p.edgeCount)

/-- The state predicates that hold. The state bits come first in the set, so the first member that
is no state bit ends the list. -/
def trueStates (p : PredicateView) : List Nat :=
  p.truths.bits.toList.takeWhile (· < p.layout.states)

end PredicateView

end BehaviorGraph
