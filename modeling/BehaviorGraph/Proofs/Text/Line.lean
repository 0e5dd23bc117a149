import BehaviorGraph.Edges.Lemmas
import BehaviorGraph.Node.Text
import BehaviorGraph.Proofs.Text.Decimal

/-!
# The line of a node

The line of a node names the node and the targets of its edges. Every name ends at a bracket that is in
no number, so the line can be taken apart again, from the left to the right.

* `NodeId.angled_append_inj`: a name in front of a text;
* `NodeId.linked`, `NodeId.toList_intercalate`, `NodeId.intercalate_inj`: names in a row;
* **`Node.line_faithful`**: two nodes have the same line exactly if they have the same identity and the
  same edges.
-/

namespace BehaviorGraph

namespace NodeId

/-! ## One name -/

variable {v w : NodeId}

theorem toList_angled (v : NodeId) :
    v.angled.toList = '<' :: (v.state.decimal.toList ++ ',' :: (v.index.toList ++ ['>'])) := by
  simp only [angled, String.toList_append, List.append_assoc]
  rfl

/-- **A name in front of a text is known from both together.** -/
theorem angled_append_inj {rest rest' : List Char} :
    v.angled.toList ++ rest = w.angled.toList ++ rest' ↔ v = w ∧ rest = rest' := by
  constructor
  · intro same
    simp only [toList_angled, List.cons_append, List.append_assoc, List.nil_append,
      List.cons.injEq, true_and] at same
    have comma (p : Fingerprint) : ',' ∉ p.decimal.toList :=
      notMem_toString_int (by decide) (by decide) _
    have bracket (u : NodeId) : '>' ∉ u.index.toList :=
      notMem_toString_int (by decide) (by decide) _
    obtain ⟨decimals, later⟩ := (append_cons_inj (comma v.state) (comma w.state)).1 same
    obtain ⟨indices, rests⟩ := (append_cons_inj (bracket v) (bracket w)).1 later
    have state := Fingerprint.decimal_inj.1 (String.toList_inj.1 decimals)
    have tableau := index_inj.1 (String.toList_inj.1 indices)
    obtain ⟨p, i⟩ := v
    obtain ⟨q, j⟩ := w
    obtain rfl : p = q := state
    obtain rfl : i = j := tableau
    exact ⟨rfl, rests⟩
  · rintro ⟨rfl, rfl⟩
    rfl

/-! ## Names in a row -/

/-- Names that go on after another one. -/
def linked : List NodeId → List Char
  | [] => []
  | v :: vs => ',' :: ' ' :: (v.angled.toList ++ linked vs)

theorem linked_inj {vs ws : List NodeId} : linked vs = linked ws ↔ vs = ws := by
  induction vs generalizing ws with
  | nil => cases ws <;> simp [linked]
  | cons v vs ih =>
    cases ws with
    | nil => simp [linked]
    | cons w ws => simp only [linked, List.cons.injEq, true_and, angled_append_inj, ih]

theorem toList_intercalate (v : NodeId) (vs : List NodeId) :
    (", ".intercalate ((v :: vs).map angled)).toList = v.angled.toList ++ linked vs := by
  induction vs generalizing v with
  | nil => simp [linked]
  | cons w vs ih =>
    rw [List.map_cons, List.map_cons, String.intercalate_cons_cons, ← List.map_cons,
      String.toList_append, String.toList_append, ih, linked, List.append_assoc]
    rfl

/-- **Names in a row are known from their text.** -/
theorem intercalate_inj {vs ws : List NodeId} :
    ", ".intercalate (vs.map angled) = ", ".intercalate (ws.map angled) ↔ vs = ws := by
  rw [← String.toList_inj]
  cases vs with
  | nil => cases ws with
    | nil => simp
    | cons w ws => simp [toList_angled]
  | cons v vs => cases ws with
    | nil => simp [toList_angled]
    | cons w ws =>
      rw [toList_intercalate, toList_intercalate, angled_append_inj, linked_inj, List.cons.injEq]

end NodeId

/-! ## Lines -/

namespace Node

theorem line_inj {a b : Node} : a.line = b.line ↔ a.id = b.id ∧ a.successors = b.successors := by
  rw [← String.toList_inj]
  simp only [line, String.toList_append, List.append_assoc, NodeId.angled_append_inj,
    List.append_cancel_left_eq, String.toList_inj, NodeId.intercalate_inj]

/-- **The line of a node tells its identity and its edges, and nothing else.** Slots that are
reserved or given back do not show. -/
theorem line_faithful (a b : Node) :
    (a.line = b.line ↔ a.id = b.id ∧ a.successors = b.successors) ∧
    (∀ count, (a.reserve count).line = a.line) ∧ a.realign.line = a.line ∧
    (∀ p q : Fingerprint, p.decimal = q.decimal ↔ p = q) ∧
    ∀ v w : NodeId, v.index = w.index ↔ v.tableau = w.tableau := by
  refine ⟨line_inj, fun count => line_inj.2 ⟨rfl, Edges.committed_reserve _ _⟩,
    line_inj.2 ⟨rfl, Edges.committed_compact _⟩, fun p q => Fingerprint.decimal_inj,
    fun v w => NodeId.index_inj⟩

/-- The largest fingerprint is written as minus one, and the reserved slot is not written at all. -/
example :
    let edges := (Edges.ofCommitted [⟨⟨0x8000000000000000⟩, 1⟩]).reserve 1
    (⟨⟨⟨0xFFFFFFFFFFFFFFFF⟩, noTableau⟩, edges, .empty⟩ : Node).line =
      "<-1,-1> --> <-9223372036854775808,1>" := by cbv

end Node

end BehaviorGraph
