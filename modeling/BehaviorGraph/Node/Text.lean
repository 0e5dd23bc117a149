import BehaviorGraph.Node

/-!
# Nodes as text

* `Node.line`: identity and edges in one line, with signed decimal fingerprints;
* `Node.dot`: one line per edge for graph drawing, with labels cut to three characters;
* `Node.label`: everything the node holds, reserved slots included.
-/

namespace BehaviorGraph

/-- An identity as nodes are listed: fingerprint in signed decimal, then the tableau index. -/
def NodeId.angled (v : NodeId) : String := "<" ++ v.state.decimal ++ "," ++ v.index ++ ">"

/-- A short name for drawings: the first three characters of the signed decimal fingerprint, a
point, and the tableau index. Different nodes may share one. -/
def NodeId.dotName (v : NodeId) : String :=
  String.ofList (v.state.decimal.toList.take 3) ++ "." ++ v.index

namespace Node

/-- The node and the targets of its edges in one line. -/
def line (n : Node) : String :=
  n.id.angled ++ " --> " ++ ", ".intercalate (n.successors.map NodeId.angled)

/-- The edges as a list for graph drawing, one per line. -/
def dot (n : Node) : String :=
  String.join (n.successors.map fun v => n.id.dotName ++ " -> " ++ v.dotName ++ "\n")

/-- Everything the node holds. -/
def label (n : Node) : String :=
  "BehaviorGraphNode \x7b key: " ++ n.id.label ++ ", transitions: " ++ n.edges.label ++
    ", checks: " ++ n.truths.label ++ " \x7d"

end Node

end BehaviorGraph
