import BehaviorGraph.Fingerprint

/-!
# Node identities

A node of the behavior graph pairs a state with a node of the tableau automaton. The pair is the
node's identity, and an edge is given by the identity of its target.

* `NodeId`, `NodeId.hasTableau`, `noTableau`;
* the order is by fingerprint, then by tableau index as a signed number;
* `NodeId.label` and `NodeId.pair`, the two texts of an identity.
-/

namespace BehaviorGraph

/-- The tableau index of nodes checked without a tableau. -/
def noTableau : Int32 := -1

/-- A state fingerprint and the index of a tableau node. -/
structure NodeId where
  state : Fingerprint
  tableau : Int32
  deriving DecidableEq, Inhabited

namespace NodeId

/-- Identities are ordered by fingerprint, then by tableau index. -/
instance : Ord NodeId :=
  ⟨compareLex (compareOn fun v => v.state.bits) (compareOn NodeId.tableau)⟩

instance : Std.TransOrd NodeId :=
  inferInstanceAs (Std.TransCmp
    (compareLex (compareOn fun v : NodeId => v.state.bits) (compareOn NodeId.tableau)))

instance : Std.LawfulEqOrd NodeId where
  eq_of_compare {v w} h := by
    obtain ⟨states, tableaus⟩ := Ordering.then_eq_eq.1 h
    obtain ⟨⟨a⟩, s⟩ := v
    obtain ⟨⟨b⟩, t⟩ := w
    obtain rfl : a = b := Std.LawfulEqOrd.eq_of_compare states
    obtain rfl : s = t := Std.LawfulEqOrd.eq_of_compare tableaus
    rfl

/-- Whether the node is paired with a tableau node at all. -/
def hasTableau (v : NodeId) : Bool := v.tableau != noTableau

/-- The tableau index in decimal. -/
def index (v : NodeId) : String := toString v.tableau.toInt

/-- The identity as messages name it. -/
def label (v : NodeId) : String := "BG(" ++ v.state.hex ++ ", t" ++ v.index ++ ")"

/-- The identity as a pair. -/
def pair (v : NodeId) : String := "(" ++ v.state.hex ++ ", t" ++ v.index ++ ")"

end NodeId

end BehaviorGraph
