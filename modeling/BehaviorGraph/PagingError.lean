import BehaviorGraph.NodeId
import BehaviorGraph.Wire.Fault

/-!
# Paging errors

Why a node could not be written out or brought back in.

* `PagingError`, `PagingError.message`, `PagingError.isFault`.
-/

namespace BehaviorGraph

/-- Why a node could not be written out or brought back in. -/
inductive PagingError
  /-- bytes could not be read or written -/
  | fault (cause : Fault)
  /-- the stored number of integers is no whole number of edges -/
  | misaligned (ints : Nat)
  /-- the node has more edges than a record can count -/
  | tooManyEdges (ints : Nat)
  /-- an earlier failed write could not be undone -/
  | poisoned (path : String)
  /-- no record of the node was ever written -/
  | unknownNode (node : NodeId)
  deriving DecidableEq

namespace PagingError

/-- The report of a paging error. -/
def message : PagingError → String
  | fault cause => "I/O error: " ++ cause.message
  | misaligned ints =>
    "corrupt node record: " ++ toString ints ++ " transition ints is not a multiple of 3"
  | tooManyEdges ints =>
    "node has " ++ toString ints ++ " transition ints, more than a record can hold"
  | poisoned path => "node file " ++ path ++ " is unusable after a failed write"
  | unknownNode node => "no record stored for node " ++ node.label

/-- Whether the error is one of reading or writing bytes. -/
def isFault : PagingError → Bool
  | fault _ => true
  | _ => false

end PagingError

end BehaviorGraph
