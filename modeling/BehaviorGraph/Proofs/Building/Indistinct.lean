import BehaviorGraph.Node.Text
import BehaviorGraph.Proofs.Building.Steps
import BehaviorGraph.Proofs.Record.RoundTrip

/-!
# Nodes that cannot be told apart

Reserved slots show in two queries about them and in the full text of a node, and nowhere else. So
it makes no difference when slots are reserved and given back, and as truths are never taken back, it
makes none either in which order they are recorded of the state.

* `Node.Indistinct`: all other queries, texts and records are the same;
* **`Node.indistinct_iff`**: this is so if and only if the appearances are;
* **`Node.build_rearranged`**: steps that differ in reservations and in the order of recordings.
-/

namespace BehaviorGraph

open BuildStep

/-- The nodes answer every query alike, except how many slots are reserved. -/
structure Node.Indistinct (n m : Node) : Prop where
  id : n.id = m.id
  edgeCount : n.edgeCount = m.edgeCount
  edge : ∀ i, n.edge i = m.edge i
  hasEdge : ∀ target, n.hasEdge target = m.hasEdge target
  successors : n.successors = m.successors
  state : ∀ i, n.state i = m.state i
  action : ∀ l k i, n.action l k i = m.action l k i
  allActions : ∀ l k is, n.allActions l k is = m.allActions l k is
  view : ∀ l, n.view l = m.view l
  words : n.truths.bits.words = m.truths.bits.words
  tableauNode? : ∀ {α : Type} (tableau : List α), n.tableauNode? tableau = m.tableauNode? tableau
  line : n.line = m.line
  dot : n.dot = m.dot
  byteCount : n.byteCount = m.byteCount
  encode : n.encode = m.encode
  writeTo : ∀ s, n.writeTo s = m.writeTo s

/-! ## Edges without their reserved slots -/

namespace Edges

variable {e e' : Edges}

theorem count_congr (same : e.committed = e'.committed) : e.count = e'.count := by
  rw [← length_committed, ← length_committed, same]

theorem get_congr (same : e.committed = e'.committed) (i : Nat) : e.get i = e'.get i := by
  rw [get, get, same, count_congr same]

theorem fields_congr (same : e.committed = e'.committed) : e.fields = e'.fields := by
  rw [fields_eq, fields_eq, same, count_congr same]

end Edges

namespace Node

variable {n m : Node}

theorem indistinct_of_appearance (same : n.appearance = m.appearance) : n.Indistinct m := by
  have ids : n.id = m.id := congrArg Appearance.id same
  have committed : n.edges.committed = m.edges.committed := congrArg Appearance.targets same
  have truths : n.truths = m.truths := congrArg Appearance.truths same
  have count := Edges.count_congr committed
  constructor
  case id => exact ids
  case edgeCount => exact count
  case edge => exact Edges.get_congr committed
  case hasEdge =>
    intro target
    rw [hasEdge, hasEdge, Edges.contains, Edges.contains, committed]
  case successors => exact committed
  case state =>
    intro i
    rw [state, state, truths]
  case action =>
    intro l k i
    simp only [action, edgeCount, count, truths]
  case allActions =>
    intro l k is
    rw [allActions, allActions, truths]
  case view =>
    intro l
    rw [view, view, edgeCount, edgeCount, count, truths]
  case words => rw [truths]
  case tableauNode? =>
    intro α tableau
    rw [tableauNode?, tableauNode?, ids]
  case line => rw [line, line, successors, successors, committed, ids]
  case dot => rw [dot, dot, successors, successors, committed, ids]
  case byteCount => rw [byteCount, byteCount, edgeCount, edgeCount, count, truths]
  case encode => rw [encode, encode, Edges.fields_congr committed, truths]
  case writeTo =>
    intro s
    rw [writeTo, writeTo, Edges.fields_congr committed, truths]

/-- **Nodes cannot be told apart if and only if they look the same without their reserved slots.** -/
theorem indistinct_iff : n.Indistinct m ↔ n.appearance = m.appearance := by
  refine ⟨fun same => ?_, indistinct_of_appearance⟩
  obtain ⟨id, edges, ⟨⟨words⟩⟩⟩ := n
  obtain ⟨id', edges', ⟨⟨words'⟩⟩⟩ := m
  obtain rfl : id = id' := same.id
  obtain rfl : words = words' := same.words
  have committed : edges.committed = edges'.committed := same.successors
  simp only [appearance, successors, committed]

theorem Indistinct.refl (n : Node) : n.Indistinct n := indistinct_of_appearance rfl

/-! ## Runs that cannot be told apart -/

/-- A run from a node with the same appearance succeeds as well, if it does so on appearances. -/
theorem exists_build {steps steps' : List BuildStep} {n' : Node}
    (same : n.appearance.build steps = m.appearance.build steps') (built : n.build steps = .ok n') :
    ∃ m', m.build steps' = .ok m' ∧ n'.Indistinct m' := by
  rw [← appearance_build, ← appearance_build, built] at same
  obtain ⟨m', built', alike⟩ := exists_of_map_ok same.symm
  exact ⟨m', built', indistinct_of_appearance alike.symm⟩

/-- **Reservations and the order of recordings leave no trace.** Nodes that are given the same edges
and truths cannot be told apart. -/
theorem build_rearranged {steps steps' : List BuildStep} {n' : Node} (alike : n.Indistinct m)
    (sameAdditions : additions steps = additions steps')
    (sameRecordings : (recordings steps).Perm (recordings steps')) (built : n.build steps = .ok n') :
    ∃ m', m.build steps' = .ok m' ∧ n'.Indistinct m' := by
  refine exists_build ?_ built
  rw [indistinct_iff.1 alike, Appearance.build_eq, Appearance.build_eq, ← sameAdditions]
  rw [Appearance.after, Appearance.after]
  congr 1
  funext bits
  apply Appearance.grown_congr
  intro i
  rw [List.mem_append, List.mem_append, (sameRecordings.flatMap_right truePositions).mem_iff]

theorem new_rearranged :
    let steps := [.reserve 3, .recordStates [true], .add .sample, .realign,
      .recordStates [false, true], .add ⟨⟨70, 3⟩, default, none⟩]
    let steps' := [.recordStates [false, true], .add .sample,
      .add ⟨⟨70, 3⟩, default, none⟩, .recordStates [true], .reserve 1, .reserve 1]
    additions steps = additions steps' ∧ (recordings steps).Perm (recordings steps') ∧
      ∃ n m, (new default).build steps = .ok n ∧ (new default).build steps' = .ok m ∧
        n.edges.reserved ≠ m.edges.reserved ∧ n.Indistinct m := by
  intro steps steps'
  have sameAdditions : additions steps = additions steps' := rfl
  have sameRecordings : (recordings steps).Perm (recordings steps') := .swap _ _ _
  have built : (new default).build steps = .ok _ := rfl
  obtain ⟨m, built', same⟩ :=
    build_rearranged (.refl (new default)) sameAdditions sameRecordings built
  refine ⟨sameAdditions, sameRecordings, _, m, built, built', ?_, same⟩
  cases built'
  decide

end Node

end BehaviorGraph
