/-!
# Calls outside a function's domain

Positions, counts and lengths are natural numbers that fit 64 bits. A call that leaves this range, or
that names an edge or a predicate that is not there, is a `Misuse`: it answers nothing and changes
nothing.

* `Misuse`, `Misuse.message`;
* `Size.limit`, `Size.add`, `Size.mul`: sums and products that stay sizes.
-/

namespace BehaviorGraph

/-- Why a call lies outside the domain of the function called. -/
inductive Misuse
  /-- an edge is asked for by a position past the committed ones -/
  | noSuchEdge (count index : Nat)
  /-- a sum is no size any more -/
  | sumTooLarge
  /-- a product is no size any more -/
  | productTooLarge
  /-- the layout has no state predicate of this index -/
  | noSuchStatePredicate (index states : Nat)
  /-- the layout has no action predicate of this index -/
  | noSuchActionPredicate (index actions : Nat)
  /-- more truth values are given than an edge has action predicates -/
  | tooManyActions (given actions : Nat)
  /-- a view is asked about an edge past the committed ones -/
  | edgeNotCommitted (edge count : Nat)
  /-- the bit of an action predicate lies behind the bits of the committed edges -/
  | bitNotCommitted (edge count : Nat)
  deriving DecidableEq

/-- The report of a misuse. -/
def Misuse.message : Misuse → String
  | noSuchEdge count index =>
    "index out of bounds: the len is " ++ toString count ++ " but the index is " ++ toString index
  | sumTooLarge => "attempt to add with overflow"
  | productTooLarge => "attempt to multiply with overflow"
  | noSuchStatePredicate index states =>
    "state predicate " ++ toString index ++ " >= slen " ++ toString states
  | noSuchActionPredicate index actions =>
    "action predicate " ++ toString index ++ " >= alen " ++ toString actions
  | tooManyActions given actions =>
    toString given ++ " action values for alen " ++ toString actions
  | edgeNotCommitted edge count => "transition " ++ toString edge ++ " >= " ++ toString count
  | bitNotCommitted edge count =>
    "action bit of transition " ++ toString edge ++ " outside " ++ toString count ++ " transitions"

namespace Size

/-- Every size is below this number: sizes fit 64 bits. -/
def limit : Nat := UInt64.size

/-- The sum of two sizes. -/
def add (a b : Nat) : Except Misuse Nat :=
  if a + b < limit then .ok (a + b) else .error .sumTooLarge

/-- The product of two sizes. -/
def mul (a b : Nat) : Except Misuse Nat :=
  if a * b < limit then .ok (a * b) else .error .productTooLarge

end Size

end BehaviorGraph
