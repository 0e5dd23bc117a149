import BehaviorGraph.Misuse

/-!
# Predicate layouts

The truth values of a node's predicates share one bit set. With `S` state predicates and `A` action
predicates per edge, the bits below `S` belong to the node, and the `A` bits from `S + A * n` belong
to its edge number `n`. A layout fixes `S` and `A`.

* `Layout.stateBit`, `Layout.actionBase`, `Layout.actionBit`: where a predicate is kept;
* `Layout.bitCount`: the number of bits a node with so many edges may use.
-/

namespace BehaviorGraph

/-- The numbers of state predicates and of action predicates per edge. -/
structure Layout where
  states : Nat
  actions : Nat
  deriving DecidableEq, Inhabited

namespace Layout

/-- The bit of state predicate `i`. -/
def stateBit (l : Layout) (i : Nat) : Except Misuse Nat :=
  if i < l.states then .ok i else .error (.noSuchStatePredicate i l.states)

/-- The first bit of the action predicates of edge `n`. -/
def actionBase (l : Layout) (n : Nat) : Except Misuse Nat := do
  let skipped ← Size.mul l.actions n
  Size.add l.states skipped

/-- The bit of action predicate `i` along edge `n`. -/
def actionBit (l : Layout) (n i : Nat) : Except Misuse Nat :=
  if i < l.actions then do
    let base ← l.actionBase n
    Size.add base i
  else .error (.noSuchActionPredicate i l.actions)

/-- The number of bits that belong to a node with `count` edges. -/
def bitCount (l : Layout) (count : Nat) : Except Misuse Nat := l.actionBase count

/-- The layout as a text. -/
def label (l : Layout) : String :=
  "CheckLayout \x7b slen: " ++ toString l.states ++ ", alen: " ++ toString l.actions ++ " \x7d"

end Layout

end BehaviorGraph
