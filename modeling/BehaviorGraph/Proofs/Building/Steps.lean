import BehaviorGraph.Edges.Lemmas
import BehaviorGraph.Node
import BehaviorGraph.Proofs.BitSet.Canonical
import BehaviorGraph.Proofs.Predicate.Positions

/-!
# Building a node step by step

A node is built by steps in any order. What is seen of it, but for its reserved slots, follows from
two things alone: the additions in their order, and which truths were recorded of the state.

* `Addition`, `BuildStep`, `Node.perform`, `Node.build`: the steps and their runs;
* `BuildStep.additions`, `BuildStep.recordings`: the two kinds of steps that count;
* `Appearance`, `Node.appearance`: a node without its reserved slots;
* **`Node.appearance_build`**: building goes on on appearances alone;
* `Addition.positionsFrom`, `Addition.mem_positionsFrom`: the bits that additions in a row set;
* `Appearance.after`, **`Appearance.build_eq`**: what becomes of a node by steps in a row.
-/

namespace BehaviorGraph

/-! ## Steps -/

/-- An edge that is added, with the action truths along it if they are given. -/
structure Addition where
  layout : Layout
  target : NodeId
  actions : Option (List Bool)

/-- An edge with three action predicates, of which the last is true, in the second word. -/
def Addition.sample : Addition := ⟨⟨70, 3⟩, ⟨⟨5⟩, 1⟩, some [false, false, true]⟩

/-- What the writer of a node does. -/
inductive BuildStep
  | reserve (count : Nat)
  | add (edge : Addition)
  | recordStates (values : List Bool)
  | realign
  | realignWith (allocated : Nat)
  | realignReporting (allocated : Nat) (warnBelow : Float)

namespace BuildStep

def addition? : BuildStep → Option Addition
  | add edge => some edge
  | _ => none

def recorded? : BuildStep → Option (List Bool)
  | recordStates values => some values
  | _ => none

/-- The additions among the steps, in order. -/
def additions (steps : List BuildStep) : List Addition := steps.filterMap addition?

/-- The lists of state truths that the steps record, in order. -/
def recordings (steps : List BuildStep) : List (List Bool) := steps.filterMap recorded?

end BuildStep

open BuildStep

namespace Node

/-- One step. Reports of realigning are left aside. -/
def perform (n : Node) : BuildStep → Except Misuse Node
  | .reserve count => .ok (n.reserve count)
  | .add edge => n.addEdge edge.layout edge.target edge.actions
  | .recordStates values => .ok (n.recordStates values)
  | .realign => .ok n.realign
  | .realignWith allocated => .ok (n.realignWith allocated).1
  | .realignReporting allocated warnBelow => .ok (n.realignReporting allocated warnBelow).1

/-- Steps in a row, up to the first misuse. -/
def build (n : Node) (steps : List BuildStep) : Except Misuse Node := steps.foldlM perform n

end Node

/-! ## The bits of additions -/

namespace Addition

/-- The bits that an addition sets in a node with `count` edges. -/
def positions (a : Addition) (count : Nat) : Except Misuse (List Nat) :=
  match a.actions with
  | some values => a.layout.actionPositions count values
  | none => .ok []

/-- The bits that additions in a row set, where the first finds `count` edges. -/
def positionsFrom (count : Nat) : List Addition → Except Misuse (List Nat)
  | [] => .ok []
  | a :: additions => do
    let first ← a.positions count
    let later ← positionsFrom (count + 1) additions
    return first ++ later

/-- The addition gives action predicate `i` as true. -/
def Gives (a : Addition) (i : Nat) : Prop :=
  ∃ values, a.actions = some values ∧ values[i]? = some true

theorem mem_positions {a : Addition} {count bit : Nat} {bits : List Nat}
    (h : a.positions count = .ok bits) :
    bit ∈ bits ↔ ∃ i, a.Gives i ∧ bit = a.layout.position count i := by
  unfold positions at h
  unfold Gives
  split at h
  next values given =>
    rw [Layout.eq_of_actionPositions h, List.mem_map, given]
    constructor
    · rintro ⟨i, there, rfl⟩
      exact ⟨i, ⟨values, rfl, mem_truePositions.1 there⟩, rfl⟩
    · rintro ⟨i, ⟨_, same, there⟩, rfl⟩
      cases same
      exact ⟨i, mem_truePositions.2 there, rfl⟩
  next given =>
    cases h
    rw [given]
    simp

theorem mem_positionsFrom {additions : List Addition} {count bit : Nat} {bits : List Nat}
    (h : positionsFrom count additions = .ok bits) :
    bit ∈ bits ↔ ∃ (k : Nat) (a : Addition) (i : Nat), additions[k]? = some a ∧ a.Gives i ∧
      bit = a.layout.position (count + k) i := by
  induction additions generalizing count bits with
  | nil =>
    cases h
    simp
  | cons a additions ih =>
    obtain ⟨first, here, h⟩ := exists_of_bind_ok h
    obtain ⟨later, others, h⟩ := exists_of_bind_ok h
    cases h
    rw [List.mem_append, mem_positions here, ih others]
    constructor
    · rintro (⟨i, gives, rfl⟩ | ⟨k, b, i, there, gives, rfl⟩)
      · exact ⟨0, a, i, rfl, gives, rfl⟩
      · refine ⟨k + 1, b, i, there, gives, ?_⟩
        rw [Nat.add_right_comm, Nat.add_assoc]
    · rintro ⟨k, b, i, there, gives, rfl⟩
      cases k with
      | zero =>
        cases there
        exact .inl ⟨i, gives, rfl⟩
      | succ k =>
        refine .inr ⟨k, b, i, there, gives, ?_⟩
        rw [Nat.add_right_comm, Nat.add_assoc]

end Addition

/-! ## Appearances -/

/-- What is seen of a node, but for its reserved slots. -/
structure Appearance where
  id : NodeId
  targets : List NodeId
  truths : Truths

def Node.appearance (n : Node) : Appearance := ⟨n.id, n.successors, n.truths⟩

namespace Appearance

/-- The appearance with more edges and more bits. -/
def grown (p : Appearance) (targets : List NodeId) (bits : List Nat) : Appearance :=
  ⟨p.id, p.targets ++ targets, ⟨p.truths.bits.insertAll bits⟩⟩

theorem grown_nil (p : Appearance) : p.grown [] [] = p := by
  rw [grown, List.append_nil, BitSet.insertAll_nil]

theorem grown_grown (p : Appearance) (targets targets' : List NodeId) (bits bits' : List Nat) :
    (p.grown targets bits).grown targets' bits' = p.grown (targets ++ targets') (bits ++ bits') := by
  simp only [grown, List.append_assoc, BitSet.insertAll_append]

theorem grown_congr (p : Appearance) (targets : List NodeId) {bits bits' : List Nat}
    (same : ∀ i, i ∈ bits ↔ i ∈ bits') : p.grown targets bits = p.grown targets bits' := by
  rw [grown, BitSet.insertAll_congr _ same, grown]

/-- A step seen from outside. -/
def perform (p : Appearance) : BuildStep → Except Misuse Appearance
  | .add edge => (edge.positions p.targets.length).map fun bits => p.grown [edge.target] bits
  | .recordStates values => .ok (p.grown [] (truePositions values))
  | _ => .ok p

def build (p : Appearance) (steps : List BuildStep) : Except Misuse Appearance :=
  steps.foldlM perform p

end Appearance

namespace Node

variable (n : Node)

@[simp] theorem length_successors : n.successors.length = n.edgeCount := n.edges.length_committed

theorem addEdge_eq (edge : Addition) :
    n.addEdge edge.layout edge.target edge.actions =
      (edge.positions n.edgeCount).map fun bits =>
        { n with
          edges := (n.edges.push edge.target).2
          truths := ⟨n.truths.bits.insertAll bits⟩ } := by
  unfold addEdge Addition.positions
  cases edge.actions with
  | none => rfl
  | some values =>
    simp only [Truths.recordActions_eq]
    change _ = (edge.layout.actionPositions n.edges.count values).map _
    cases edge.layout.actionPositions n.edges.count values <;> rfl

theorem appearance_perform (step : BuildStep) :
    (n.perform step).map appearance = n.appearance.perform step := by
  have realigned : n.realign.appearance = n.appearance := by
    simp only [appearance, successors, realign, Edges.committed_compact]
  cases step with
  | reserve count =>
    simp only [perform, Except.map, Appearance.perform, appearance, successors, reserve,
      Edges.committed_reserve]
  | add edge =>
    have count : n.appearance.targets.length = n.edgeCount := n.length_successors
    rw [perform, addEdge_eq, Appearance.perform, count]
    cases edge.positions n.edgeCount with
    | error misuse => rfl
    | ok bits => simp only [Except.map, appearance, successors, Edges.committed_push, Appearance.grown]
  | recordStates values =>
    simp only [perform, Except.map, Appearance.perform, appearance, successors, recordStates,
      Truths.recordStates, Appearance.grown, List.append_nil]
  | realign => exact congrArg Except.ok realigned
  | realignWith allocated => exact congrArg Except.ok realigned
  | realignReporting allocated warnBelow => exact congrArg Except.ok realigned

/-- **What is seen of a node after steps in a row is settled by what was seen of it before.** -/
theorem appearance_build (steps : List BuildStep) :
    (n.build steps).map appearance = n.appearance.build steps := by
  induction steps generalizing n with
  | nil => rfl
  | cons step steps ih =>
    have next := n.appearance_perform step
    rw [build, Appearance.build, List.foldlM_cons, List.foldlM_cons, ← next]
    cases n.perform step with
    | error misuse => rfl
    | ok m => exact ih m

end Node

/-! ## Steps in a row -/

namespace Appearance

variable (p : Appearance)

/-- The appearance after additions in order and recordings in any order. -/
def after (p : Appearance) (additions : List Addition) (recordings : List (List Bool)) :
    Except Misuse Appearance :=
  (Addition.positionsFrom p.targets.length additions).map fun bits =>
    p.grown (additions.map Addition.target) (bits ++ recordings.flatMap truePositions)

theorem after_add (edge : Addition) (additions : List Addition) (recordings : List (List Bool)) :
    p.after (edge :: additions) recordings =
      p.perform (.add edge) >>= fun q => q.after additions recordings := by
  rw [after, perform, Addition.positionsFrom]
  cases edge.positions p.targets.length with
  | error misuse => rfl
  | ok first =>
    have count : (p.grown [edge.target] first).targets.length = p.targets.length + 1 :=
      List.length_append
    change _ = (p.grown [edge.target] first).after additions recordings
    rw [after, count]
    change (Addition.positionsFrom (p.targets.length + 1) additions >>= _).map _ = _
    cases Addition.positionsFrom (p.targets.length + 1) additions with
    | error misuse => rfl
    | ok later =>
      simp only [Except.map, grown_grown, List.singleton_append, bind, Except.bind, pure,
        Except.pure, List.append_assoc, List.map_cons]

theorem after_record (additions : List Addition) (values : List Bool)
    (recordings : List (List Bool)) :
    p.after additions (values :: recordings) =
      (p.grown [] (truePositions values)).after additions recordings := by
  have count : (p.grown [] (truePositions values)).targets.length = p.targets.length :=
    congrArg List.length (List.append_nil _)
  rw [after, after, count]
  congr 1
  funext bits
  rw [grown_grown, List.nil_append, List.flatMap_cons]
  apply grown_congr
  intro i
  simp only [List.mem_append]
  exact or_left_comm

/-- **Only the order of the additions matters, and which truths are recorded.** -/
theorem build_eq (steps : List BuildStep) :
    p.build steps = p.after (additions steps) (recordings steps) := by
  induction steps generalizing p with
  | nil => exact congrArg Except.ok p.grown_nil.symm
  | cons step steps ih =>
    have next : p.build (step :: steps) = p.perform step >>= fun q => q.build steps :=
      List.foldlM_cons
    have rest : (fun q : Appearance => q.build steps) =
        fun q => q.after (additions steps) (recordings steps) := funext ih
    rw [next, rest]
    cases step with
    | add edge => exact (p.after_add edge (additions steps) (recordings steps)).symm
    | recordStates values => exact (p.after_record (additions steps) values (recordings steps)).symm
    | _ => rfl

end Appearance

end BehaviorGraph
