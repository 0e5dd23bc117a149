import BehaviorGraph.BitSet
import BehaviorGraph.Predicate.Layout

/-!
# Predicate truth values

What is known to hold on a node and along its edges. Only truths are recorded: a value given as
false leaves the bit as it is, so no truth is ever lost.

* `Truths.recordStates`, `Truths.recordActions`: adding truths;
* `Truths.state`, `Truths.action`, `Truths.allActions`: asking for them.
-/

namespace BehaviorGraph

/-- The positions of the true values of a list. -/
def truePositions (values : List Bool) : List Nat :=
  values.zipIdx.filterMap fun (value, i) => if value then some i else none

/-- The recorded truths of a node, as bits under a layout that the caller keeps. -/
structure Truths where
  bits : BitSet
  deriving DecidableEq, Inhabited

namespace Truths

/-- Nothing is recorded. -/
def empty : Truths := ⟨.empty⟩

/-- Record which state predicates hold. -/
def recordStates (t : Truths) (values : List Bool) : Truths :=
  ⟨t.bits.insertAll (truePositions values)⟩

/-- Record which action predicates hold along edge `n`. -/
def recordActions (t : Truths) (l : Layout) (n : Nat) (values : List Bool) :
    Except Misuse Truths :=
  if values.length ≤ l.actions then do
    let base ← l.actionBase n
    let positions ← (truePositions values).mapM (Size.add base)
    .ok ⟨t.bits.insertAll positions⟩
  else .error (.tooManyActions values.length l.actions)

/-- Whether state predicate `i` holds. -/
def state (t : Truths) (i : Nat) : Bool := t.bits.contains i

/-- Whether action predicate `i` holds along edge `n`. -/
def action (t : Truths) (l : Layout) (n i : Nat) : Except Misuse Bool := do
  let bit ← l.actionBit n i
  .ok (t.bits.contains bit)

/-- Whether all the listed action predicates hold along edge `n`; the first that does not ends the
search. -/
def allActions (t : Truths) (l : Layout) (n : Nat) : List Nat → Except Misuse Bool
  | [] => .ok true
  | i :: rest => do
    let holds ← t.action l n i
    if holds then t.allActions l n rest else .ok false

/-- The truths as a text. -/
def label (t : Truths) : String := "PredicateChecks \x7b bits: " ++ t.bits.label ++ " \x7d"

end Truths

end BehaviorGraph
