import BehaviorGraph.Edges
import BehaviorGraph.Event
import BehaviorGraph.Predicate.View
import BehaviorGraph.Settings

/-!
# Behavior graph nodes

A node has an identity, outgoing edges and the truth values of the temporal predicates on it and
along each edge. A single writer builds it, after which it is only read or paged out.

* building: `Node.reserve`, `Node.addEdge`, `Node.recordStates`, `Node.realign`,
  `Node.realignReporting`, `Node.realignWith`;
* queries: `Node.edgeCount`, `Node.edge`, `Node.successors`, `Node.action`, `Node.allActions`,
  `Node.view`.
-/

namespace BehaviorGraph

/-- An identity with its outgoing edges and predicate truths. -/
structure Node where
  id : NodeId
  edges : Edges
  truths : Truths

namespace Node

/-- Nodes are equal when their identities are, whatever they hold. -/
instance : BEq Node := ⟨fun a b => a.id == b.id⟩

/-- The node without edges and without truths. -/
def new (id : NodeId) : Node := ⟨id, .empty, .empty⟩

instance : Inhabited Node := ⟨new default⟩

/-! ## Building -/

/-- Reserve slots for `count` more edges. -/
def reserve (n : Node) (count : Nat) : Node := { n with edges := n.edges.reserve count }

/-- Add an edge to `target`. The action truths, if any are given, are recorded under the number of
edges before the addition. -/
def addEdge (n : Node) (l : Layout) (target : NodeId) (actions : Option (List Bool)) :
    Except Misuse Node := do
  let truths ← match actions with
    | some values => n.truths.recordActions l n.edges.count values
    | none => .ok n.truths
  return { n with edges := (n.edges.push target).2, truths := truths }

/-- Record which state predicates hold on the node. -/
def recordStates (n : Node) (values : List Bool) : Node :=
  { n with truths := n.truths.recordStates values }

/-- Give back the slots that were reserved but not used. -/
def realign (n : Node) : Node := { n with edges := n.edges.compact.2 }

/-- Whether reserved slots are waiting to be filled. -/
def hasPending (n : Node) : Bool := n.edges.allocation != .settled

/-- Whether `used` of `allocated` slots are less than the given share. -/
def usedLessThan (share : Float) (used allocated : Nat) : Bool :=
  used.toUInt64.toFloat / allocated.toUInt64.toFloat < share

/-- Give back the unused slots, and report them if less than the share `warnBelow` of the
`allocated` ones was used. -/
def realignReporting (n : Node) (allocated : Nat) (warnBelow : Float) : Node × Option Event :=
  let free := n.edges.reserved
  let used := allocated - free
  let report := 0 < allocated && n.hasPending && usedLessThan warnBelow used allocated
  (n.realign, if report then some (.overAllocated n.id used free allocated) else none)

/-- Give back the unused slots, and report them if less than half of the `allocated` ones was
used. -/
def realignWith (n : Node) (allocated : Nat) : Node × Option Event :=
  n.realignReporting allocated Ratio.half.toFloat

/-! ## Queries -/

/-- The number of committed edges. -/
def edgeCount (n : Node) : Nat := n.edges.count

/-- The target of edge number `i`. -/
def edge (n : Node) (i : Nat) : Except Misuse NodeId := n.edges.get i

/-- Whether there is an edge to `target`. -/
def hasEdge (n : Node) (target : NodeId) : Bool := n.edges.contains target

/-- The targets of all edges, in the order they were added. -/
def successors (n : Node) : List NodeId := n.edges.committed

/-- Whether state predicate `i` holds. -/
def state (n : Node) (i : Nat) : Bool := n.truths.state i

/-- Whether action predicate `i` holds along edge `k`. Its bit must lie before the end of the bits
of the committed edges. -/
def action (n : Node) (l : Layout) (k i : Nat) : Except Misuse Bool := do
  let bit ← l.actionBit k i
  let bitCount ← l.bitCount n.edgeCount
  if bit < bitCount then n.truths.action l k i else .error (.bitNotCommitted k n.edgeCount)

/-- Whether all the listed action predicates hold along edge `k`. -/
def allActions (n : Node) (l : Layout) (k : Nat) (is : List Nat) : Except Misuse Bool :=
  n.truths.allActions l k is

/-- The predicates of the node, read under a fixed layout. -/
def view (n : Node) (l : Layout) : PredicateView := ⟨n.truths, l, n.edgeCount⟩

/-- The entry of a tableau, given as the list of its nodes, that the node is paired with. -/
def tableauNode? {α : Type} (n : Node) (tableau : List α) : Option α :=
  if n.id.tableau < 0 then none else tableau[n.id.tableau.toInt.toNat]?

end Node

end BehaviorGraph
