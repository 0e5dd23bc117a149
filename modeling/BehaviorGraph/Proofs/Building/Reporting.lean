import BehaviorGraph.Proofs.Building.Steps

/-!
# Reports of unused slots

Realigning a node may report how many of the slots reserved for it were used. The numbers come from
the slots that are still free. They are those of the batch of reservations that is being given back:
all that was reserved, and all edges that were added, since the node last had nothing pending.

* `Watched`, `Watched.run`: a node with the numbers of its batch, step by step;
* `Watched.Balanced`, **`Watched.balanced_run`**: what was reserved is what is free and what was added;
* **`Node.realignReporting_counts`**: when realigning reports, and which numbers.
-/

namespace BehaviorGraph

namespace BuildStep

/-- The slots that a step reserves. -/
def slots : BuildStep → Nat
  | reserve count => count
  | _ => 0

/-- The edges that a step adds. -/
def edges : BuildStep → Nat
  | add _ => 1
  | _ => 0

end BuildStep

/-! ## What a step does to the free slots -/

namespace Node

variable {n m : Node} {step : BuildStep}

theorem hasPending_iff : n.hasPending = true ↔ 0 < n.edges.reserved := by
  rw [hasPending, bne_iff_ne, Edges.allocation_eq]
  split
  next none_free => simp [none_free]
  next free => exact iff_of_true (fun settled => by cases settled) (Nat.pos_of_ne_zero free)

theorem hasPending_eq_false (h : n.edges.reserved = 0) : n.hasPending = false := by
  rw [Bool.eq_false_iff, ne_eq, hasPending_iff, h]
  exact Nat.lt_irrefl 0

theorem id_of_perform (done : n.perform step = .ok m) : m.id = n.id := by
  cases step with
  | add edge =>
    rw [perform, addEdge_eq] at done
    obtain ⟨bits, -, rfl⟩ := exists_of_map_ok done
    rfl
  | _ =>
    cases done
    rfl

/-- A step gives back all free slots, or it changes their number by what it reserves and adds. -/
theorem reserved_of_perform (done : n.perform step = .ok m) :
    m.edges.reserved = 0 ∨
      m.edges.reserved + step.edges = n.edges.reserved + step.slots := by
  cases step with
  | reserve count =>
    cases done
    exact .inr (n.edges.reserved_reserve count)
  | add edge =>
    rw [perform, addEdge_eq] at done
    obtain ⟨bits, -, rfl⟩ := exists_of_map_ok done
    have free := n.edges.reserved_push edge.target
    change (n.edges.push edge.target).2.reserved = 0 ∨
      (n.edges.push edge.target).2.reserved + 1 = n.edges.reserved
    omega
  | recordStates values =>
    cases done
    exact .inr rfl
  | _ =>
    cases done
    exact .inl n.edges.reserved_compact

end Node

/-! ## Batches -/

/-- A node that is being built, with the slots that were reserved and the edges that were added since
it last had nothing pending. -/
structure Watched where
  node : Node
  reserved : Nat
  added : Nat

namespace Watched

/-- A new node. -/
def new (id : NodeId) : Watched := ⟨.new id, 0, 0⟩

/-- A step, which is counted if something is pending after it. A misuse changes nothing. -/
def perform (w : Watched) (step : BuildStep) : Watched :=
  match w.node.perform step with
  | .error _ => w
  | .ok n => if n.hasPending then ⟨n, w.reserved + step.slots, w.added + step.edges⟩ else ⟨n, 0, 0⟩

/-- Steps in a row. -/
def run (w : Watched) (steps : List BuildStep) : Watched := steps.foldl perform w

/-- Of the slots that were reserved, those are free that no edge was added to. -/
structure Balanced (w : Watched) (id : NodeId) : Prop where
  id : w.node.id = id
  slots : w.node.edges.reserved + w.added = w.reserved

variable {w : Watched} {id : NodeId}

/-- The numbers are kept aside: without a misuse, the node is built as it is without them. -/
theorem node_run {steps : List BuildStep} {n : Node} (built : w.node.build steps = .ok n) :
    (w.run steps).node = n := by
  induction steps generalizing w with
  | nil => exact Except.ok.inj built
  | cons step steps ih =>
    rw [Node.build, List.foldlM_cons] at built
    obtain ⟨next, done, built⟩ := exists_of_bind_ok built
    have node : (w.perform step).node = next := by
      simp only [perform, done]
      split <;> rfl
    rw [← node] at built
    exact ih built

theorem Balanced.perform (balanced : w.Balanced id) (step : BuildStep) :
    (w.perform step).Balanced id := by
  unfold Watched.perform
  cases done : w.node.perform step with
  | error misuse => exact balanced
  | ok n =>
    have same := (Node.id_of_perform done).trans balanced.id
    -- while something is pending the step is counted, and otherwise the numbers start again
    by_cases pending : n.hasPending = true
    · have counts := balanced.slots
      have free := Node.hasPending_iff.1 pending
      simp only [if_pos pending]
      refine ⟨same, ?_⟩
      obtain none_free | changed := Node.reserved_of_perform done
      · omega
      · change n.edges.reserved + (w.added + step.edges) = w.reserved + step.slots
        omega
    · simp only [if_neg pending]
      refine ⟨same, ?_⟩
      rw [Node.hasPending_iff] at pending
      exact Nat.eq_zero_of_not_pos pending

/-- **At any time, what was reserved is what is free and what was added.** -/
theorem balanced_run (id : NodeId) (steps : List BuildStep) : ((new id).run steps).Balanced id := by
  have start : (new id).Balanced id := ⟨rfl, rfl⟩
  unfold run
  generalize new id = w at start
  induction steps generalizing w with
  | nil => exact start
  | cons step steps ih => exact ih _ (start.perform step)

end Watched

namespace Node

theorem realignReporting_eq_some_iff {n : Node} {allocated : Nat} {warnBelow : Float}
    {event : Event} :
    (n.realignReporting allocated warnBelow).2 = some event ↔
      (0 < allocated ∧ n.hasPending = true ∧
        usedLessThan warnBelow (allocated - n.edges.reserved) allocated = true) ∧
      event = .overAllocated n.id (allocated - n.edges.reserved) n.edges.reserved allocated := by
  simp only [realignReporting, Option.ite_none_right_eq_some, Bool.and_eq_true,
    decide_eq_true_iff, and_assoc, Option.some.injEq, eq_comm (b := event)]

/-- **Realigning reports the batch that it gives back**, if slots are pending and the share of them
that was used is below the threshold. -/
theorem realignReporting_counts (id : NodeId) (steps : List BuildStep) (allocated : Nat)
    (warnBelow : Float) :
    let w := (Watched.new id).run steps
    let free := w.reserved - w.added
    let used := allocated - free
    let after := (w.node.realignReporting allocated warnBelow).1
    (∀ n, (new id).build steps = .ok n → w.node = n) ∧
    w.added ≤ w.reserved ∧
    (used : Int) = max 0 ((allocated : Int) - (w.reserved - w.added)) ∧
    (allocated = w.reserved → used = w.added) ∧
    (∀ event, (w.node.realignReporting allocated warnBelow).2 = some event ↔
      (0 < allocated ∧ w.node.hasPending = true ∧ usedLessThan warnBelow used allocated = true) ∧
        event = .overAllocated id used free allocated) ∧
    (Event.overAllocated id used free allocated).severity = .warning ∧
    after = w.node.realign ∧ after.successors = w.node.successors ∧
    after.truths = w.node.truths ∧ after.hasPending = false := by
  intro w free used after
  have balanced := Watched.balanced_run id steps
  have slots : w.node.edges.reserved + w.added = w.reserved := balanced.slots
  have same : w.node.id = id := balanced.id
  have left : w.node.edges.reserved = free := by omega
  refine ⟨fun n built => Watched.node_run built, by omega, by omega, by omega, fun event => ?_, rfl,
    rfl, w.node.edges.committed_compact, rfl, hasPending_eq_false w.node.edges.reserved_compact⟩
  rw [realignReporting_eq_some_iff, left, same]

/-- The first batch is used up, and the second, reserved in two parts, is not. -/
example :
    let w := (Watched.new default).run
      [.reserve 1, .add .sample, .add .sample, .reserve 3, .add .sample, .reserve 2]
    (w.reserved, w.added, w.node.edges.reserved) = (5, 1, 4) := by cbv

end Node

end BehaviorGraph
