import BehaviorGraph.Misuse
import BehaviorGraph.NodeId

/-!
# Outgoing edges

The edges of a node in the order they were found, in one flat array. A caller that knows how many
are to come reserves slots first and fills them one by one; `compact` gives back what was not used.

| allocation  | event       | effect            | allocation after            |
|-------------|-------------|-------------------|-----------------------------|
| `settled`   | `reserve n` | grow by `n` slots | `pending` at the old size   |
| `pending c` | `reserve n` | grow by `n` slots | `pending c`                 |
| `settled`   | `push`      | append one edge   | `settled`                   |
| `pending c` | `push`      | write slot `c`    | `pending (c + 1)`, `settled` at the end |
| `pending c` | `compact`   | cut off at `c`    | `settled`                   |

Only the slots before the cursor are committed; reserved ones show in no query.

* `Edges.reserve`, `Edges.push`, `Edges.compact`;
* `Edges.committed`, `Edges.count`, `Edges.reserved`, `Edges.get`, `Edges.contains`.
-/

namespace BehaviorGraph

/-- Whether slots are waiting to be filled. -/
inductive Allocation
  /-- every slot holds a committed edge -/
  | settled
  /-- the slots from `next` on are reserved -/
  | pending (next : Nat)
  deriving DecidableEq, Inhabited

/-- The edges of a node, each given by its target. The cursor of a reservation stands on a reserved
slot. -/
structure Edges where
  slots : Array NodeId
  allocation : Allocation
  next_lt : ∀ next, allocation = .pending next → next < slots.size

namespace Edges

/-- No edges and no reserved slots. -/
def empty : Edges := ⟨#[], .settled, nofun⟩

instance : Inhabited Edges := ⟨empty⟩

/-- What stands in a reserved slot. -/
def vacant : NodeId := ⟨⟨0⟩, noTableau⟩

/-- Edges that are all committed. -/
def ofCommitted (targets : List NodeId) : Edges := ⟨targets.toArray, .settled, nofun⟩

/-- Add `n` reserved slots. The cursor of an earlier reservation stays where it is. -/
def reserve (e : Edges) (n : Nat) : Edges :=
  if zero : n = 0 then e else
    { slots := e.slots ++ Array.replicate n vacant
      allocation :=
        match e.allocation with
        | .settled => .pending e.slots.size
        | .pending next => .pending next
      next_lt := by
        intro next pending
        rw [Array.size_append, Array.size_replicate]
        cases there : e.allocation with
        | settled =>
          rw [there] at pending
          cases pending
          omega
        | pending c =>
          have := e.next_lt c there
          rw [there] at pending
          cases pending
          omega }

/-- Commit an edge, in the first reserved slot if there is one, and give its index. -/
def push (e : Edges) (target : NodeId) : Nat × Edges :=
  match there : e.allocation with
  | .settled => (e.slots.size, ⟨e.slots.push target, .settled, nofun⟩)
  | .pending next =>
    (next,
      { slots := e.slots.setIfInBounds next target
        allocation := if next + 1 = e.slots.size then .settled else .pending (next + 1)
        next_lt := by
          intro c pending
          have := e.next_lt next there
          rw [Array.size_setIfInBounds]
          split at pending
          · cases pending
          · cases pending
            omega })

/-- Give back the reserved slots that were not used, and give their number. -/
def compact (e : Edges) : Nat × Edges :=
  match e.allocation with
  | .settled => (0, e)
  | .pending next => (e.slots.size - next, ⟨e.slots.take next, .settled, nofun⟩)

/-- The number of committed edges. -/
def count (e : Edges) : Nat :=
  match e.allocation with
  | .settled => e.slots.size
  | .pending next => next

/-- The number of reserved slots that are not filled. -/
def reserved (e : Edges) : Nat := e.slots.size - e.count

/-- The committed edges, in the order they were pushed. -/
def committed (e : Edges) : List NodeId := (e.slots.take e.count).toList

/-- The committed edge number `i`. -/
def get (e : Edges) (i : Nat) : Except Misuse NodeId :=
  match e.committed[i]? with
  | some target => .ok target
  | none => .error (.noSuchEdge e.count i)

/-- Whether there is a committed edge to `target`. -/
def contains (e : Edges) (target : NodeId) : Bool := e.committed.contains target

/-- Edges are equal when the committed ones are. -/
instance : BEq Edges := ⟨fun a b => a.committed == b.committed⟩

/-- One slot as a text. -/
def slotLabel (target : NodeId) : String :=
  "Transition \x7b fp: " ++ target.state.label ++ ", tidx: " ++ target.index ++ " \x7d"

/-- All slots and the cursor as a text. Reserved slots are shown here, and only here. -/
def label (e : Edges) : String :=
  let cursor := match e.allocation with
    | .settled => "NoPending"
    | .pending next => "Pending \x7b cursor: " ++ toString next ++ " \x7d"
  "TransitionStore \x7b records: [" ++ ", ".intercalate (e.slots.toList.map slotLabel) ++
    "], alloc: " ++ cursor ++ " \x7d"

end Edges

end BehaviorGraph
