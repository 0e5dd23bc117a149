import BehaviorGraph.BitSet.Wire
import BehaviorGraph.Node
import BehaviorGraph.PagingError
import BehaviorGraph.Wire.Field
import BehaviorGraph.Wire.Sink

/-!
# Node records

A node is stored as the number of its integers (three for each edge) as a length, the high half, the
low half and the tableau index of every target in four bytes each, and then the bit set of its
predicate truths. Reserved slots are not stored, and neither is the identity: whoever keeps records
keeps it beside them.

* `Node.encode`, `Node.byteCount`: the record and its size;
* `Node.writeTo`: the record written to a sink, field by field;
* `Node.readFrom`, `Node.readNew`, `Node.reload`: a record off a source.
-/

namespace BehaviorGraph

/-- The number of integers that an edge is stored in. -/
def intsPerEdge : Nat := 3

namespace NodeId

/-- The three integers of an edge to the given target, each as its bytes. -/
def fields (v : NodeId) : List (List UInt8) :=
  [v.state.high, v.state.low, v.tableau].map fun int => bigEndian 4 int.toUInt32.toNat

/-- The target of an edge off a source. -/
def read : Decoder Fault NodeId := do
  let high ← Decoder.number 4
  let low ← Decoder.number 4
  let tableau ← Decoder.number 4
  return ⟨.ofHalves (UInt32.ofNat high).toInt32 (UInt32.ofNat low).toInt32,
    (UInt32.ofNat tableau).toInt32⟩

end NodeId

namespace Edges

/-- The number of integers and the integers of all committed edges, each as its bytes. -/
def fields (e : Edges) : Except PagingError (List (List UInt8)) :=
  let ints := e.count * intsPerEdge
  match Length.encode ints with
  | .error _ => .error (.tooManyEdges ints)
  | .ok count => .ok (count :: e.committed.flatMap NodeId.fields)

/-- Edges off a source. A count that is no whole number of edges is refused before any edge is
read. -/
def read : Decoder PagingError Edges := do
  let ints ← Length.read.mapFault .fault
  if ints % intsPerEdge = 0 then
    let targets ← (Decoder.many (ints / intsPerEdge) NodeId.read).mapFault .fault
    return ofCommitted targets
  else
    throw (.misaligned ints)

end Edges

namespace Node

/-- The record of a node. -/
def encode (n : Node) : Except PagingError (List UInt8) := do
  let edges ← n.edges.fields
  let bits ← n.truths.bits.fields.mapError .fault
  return (edges ++ bits).flatten

/-- The size of a node's record in bytes. -/
def byteCount (n : Node) : Nat :=
  let ints := n.edgeCount * intsPerEdge
  Length.width ints + ints * 4 + n.truths.bits.byteCount

/-- Write the record of a node to a sink, field by field. Edges that can be stored are written even
if the bit set cannot. -/
def writeTo (n : Node) (s : Sink) : Except PagingError Unit × Sink :=
  match n.edges.fields with
  | .error e => (.error e, s)
  | .ok edges =>
    match s.putAll edges with
    | (.error cause, s) => (.error (.fault cause), s)
    | (.ok (), s) =>
      match n.truths.bits.fields with
      | .error cause => (.error (.fault cause), s)
      | .ok bits =>
        let (result, s) := s.putAll bits
        (result.mapError .fault, s)

/-- The node with its edges and truths replaced by a record off a source. -/
def readFrom (n : Node) : Decoder PagingError Node := do
  let edges ← Edges.read
  let bits ← BitSet.read.mapFault .fault
  return { n with edges := edges, truths := ⟨bits⟩ }

/-- A node with the given identity, made from a record off a source. -/
def readNew (id : NodeId) : Decoder PagingError Node := (new id).readFrom

/-- Replace the edges and truths of a node in place, and give what is left of the source. If reading
fails, the node stays as it is. -/
def reload (n : Node) (s : Source) : Except PagingError Source × Node :=
  match n.readFrom s with
  | .error e => (.error e, n)
  | .ok (n, s) => (.ok s, n)

end Node

end BehaviorGraph
