import BehaviorGraph.Edges.Lemmas

/-!
# Edges as a list and a number

The flat array with its cursor stands for the list of committed edges and the number of slots that
are reserved behind them. `reserve` adds to the number, `push` adds to the list and takes one off
the number, `compact` sets the number to zero; whatever is seen of edges follows from the two.

* `Outline`, `Edges.outline`: the list and the number;
* `EdgeStep`, `Outline.perform`, `Edges.perform`, `runAll`: steps on both sides, and their answers;
* `Edges.Shows`: what is seen of edges with a given outline;
* **`Edges.runAll_outline`**: steps in a row do to edges what they do to the outline;
* **`Edges.runAll_shows`**: answers and views after every run.
-/

namespace BehaviorGraph

/-- Edges told by the committed ones and the number of slots reserved behind them. -/
structure Outline where
  committed : List NodeId
  reserved : Nat

/-- What is done to edges. -/
inductive EdgeStep
  | reserve (count : Nat)
  | push (target : NodeId)
  | compact

/-- The answers to steps in a row, and the state after them. -/
def runAll {σ ι α : Type} (perform : σ → ι → α × σ) (s : σ) : List ι → List α × σ
  | [] => ([], s)
  | step :: steps =>
    let (answer, s) := perform s step
    let (answers, s) := runAll perform s steps
    (answer :: answers, s)

theorem runAll_cons {σ ι α : Type} (perform : σ → ι → α × σ) (s : σ) (step : ι)
    (steps : List ι) :
    runAll perform s (step :: steps) =
      ((perform s step).1 :: (runAll perform (perform s step).2 steps).1,
        (runAll perform (perform s step).2 steps).2) := rfl

/-- A push answers with the index of the edge, and fills a reserved slot if there is one; `compact`
answers with the number given back. -/
def Outline.perform (o : Outline) : EdgeStep → Option Nat × Outline
  | .reserve count => (none, { o with reserved := o.reserved + count })
  | .push target => (some o.committed.length, ⟨o.committed ++ [target], o.reserved - 1⟩)
  | .compact => (some o.reserved, { o with reserved := 0 })

namespace Edges

/-- The same steps on the array with its cursor. -/
def perform (e : Edges) : EdgeStep → Option Nat × Edges
  | .reserve count => (none, e.reserve count)
  | .push target => ((e.push target).1, (e.push target).2)
  | .compact => (e.compact.1, e.compact.2)

/-- The outline of edges. -/
def outline (e : Edges) : Outline := ⟨e.committed, e.reserved⟩

@[simp] theorem outline_ofCommitted (targets : List NodeId) :
    (ofCommitted targets).outline = ⟨targets, 0⟩ := by
  rw [outline, committed_ofCommitted, reserved_ofCommitted]

/-! ## Steps -/

theorem perform_outline (e : Edges) (step : EdgeStep) :
    (e.perform step).1 = (e.outline.perform step).1 ∧
      (e.perform step).2.outline = (e.outline.perform step).2 := by
  cases step with
  | reserve count =>
    refine ⟨rfl, ?_⟩
    simp only [perform, Outline.perform, outline, committed_reserve, reserved_reserve]
  | push target =>
    simp only [perform, Outline.perform, outline, push_fst, committed_push, reserved_push,
      length_committed, and_self]
  | compact =>
    simp only [perform, Outline.perform, outline, compact_fst, committed_compact,
      reserved_compact, and_self]

/-- **Steps in a row do to edges what they do to the outline.** -/
theorem runAll_outline (e : Edges) (steps : List EdgeStep) :
    (runAll perform e steps).1 = (runAll Outline.perform e.outline steps).1 ∧
      (runAll perform e steps).2.outline = (runAll Outline.perform e.outline steps).2 := by
  induction steps generalizing e with
  | nil => exact ⟨rfl, rfl⟩
  | cons step steps ih =>
    obtain ⟨answer, next⟩ := perform_outline e step
    obtain ⟨answers, last⟩ := ih (e.perform step).2
    rw [next] at answers last
    rw [runAll_cons, runAll_cons, answer, answers]
    exact ⟨rfl, last⟩

/-! ## Views -/

theorem contains_iff (e : Edges) (target : NodeId) :
    e.contains target = true ↔ target ∈ e.committed := List.contains_iff_mem

theorem get_of_lt {e : Edges} {i : Nat} (h : i < e.committed.length) :
    e.get i = .ok e.committed[i] := by
  rw [get, List.getElem?_eq_getElem h]

theorem get_of_ge {e : Edges} {i : Nat} (h : e.committed.length ≤ i) :
    e.get i = .error (.noSuchEdge e.committed.length i) := by
  rw [get, List.getElem?_eq_none h, length_committed]

/-- Without reserved slots, a push makes the array longer. -/
theorem slots_push_of_settled {e : Edges} (h : e.reserved = 0) (target : NodeId) :
    (e.push target).2.slots = e.slots.push target := by
  have settled : e.allocation = .settled := by rw [allocation_eq, if_pos h]
  unfold push
  split
  · rfl
  · rename_i pending
    cases settled.symm.trans pending

/-- With reserved slots, a push writes to the first of them, which is there. -/
theorem slots_push_of_pending {e : Edges} (h : 0 < e.reserved) (target : NodeId) :
    ∃ inside : e.committed.length < e.slots.size,
      (e.push target).2.slots = e.slots.set e.committed.length target := by
  have pending : e.allocation = .pending e.count := by
    rw [allocation_eq, if_neg (Nat.ne_of_gt h)]
  have inside := e.next_lt e.count pending
  rw [length_committed]
  refine ⟨inside, ?_⟩
  unfold push
  split
  · rename_i settled
    cases settled.symm.trans pending
  · rename_i next there
    cases there.symm.trans pending
    simp only [Array.setIfInBounds, dif_pos inside]

/-- What is seen of edges with the given outline. -/
structure Shows (e : Edges) (o : Outline) : Prop where
  committed : e.committed = o.committed
  count : e.count = o.committed.length
  reserved : e.reserved = o.reserved
  allocation : e.allocation =
    if 0 < o.reserved then .pending o.committed.length else .settled
  get : ∀ (i : Nat) (inside : i < o.committed.length), e.get i = .ok o.committed[i]
  misuse : ∀ i, (∃ misuse, e.get i = .error misuse) ↔ o.committed.length ≤ i
  contains : ∀ target, e.contains target = true ↔ target ∈ o.committed
  /-- the committed edges are a front part of the slots, and the reserved ones are the others -/
  slots : e.slots.size = o.committed.length + o.reserved
  /-- a push writes to a slot of the array, or appends one -/
  written : ∀ target, if 0 < o.reserved
    then ∃ inside : o.committed.length < e.slots.size,
      (e.push target).2.slots = e.slots.set o.committed.length target
    else (e.push target).2.slots = e.slots.push target

theorem shows_outline (e : Edges) : e.Shows e.outline where
  committed := rfl
  count := e.length_committed.symm
  reserved := rfl
  allocation := by
    rw [allocation_eq, outline, length_committed]
    by_cases h : e.reserved = 0
    · rw [if_pos h, if_neg (Nat.not_lt_of_le (Nat.le_of_eq h))]
    · rw [if_neg h, if_pos (Nat.pos_of_ne_zero h)]
  get i inside := get_of_lt inside
  misuse i := by
    constructor
    · rintro ⟨misuse, failed⟩
      refine Nat.le_of_not_lt fun inside => ?_
      cases (get_of_lt inside).symm.trans failed
    · intro h
      exact ⟨_, get_of_ge h⟩
  contains := e.contains_iff
  slots := by
    rw [outline, length_committed]
    exact e.count_add_reserved.symm
  written target := by
    split
    next h => exact slots_push_of_pending h target
    next h => exact slots_push_of_settled (Nat.eq_zero_of_not_pos h) target

/-- **Edges are a list and a number.** Nothing is seen of any steps but the edges pushed and how
many slots are reserved. -/
theorem runAll_shows (targets : List NodeId) (steps : List EdgeStep) :
    Edges.empty = ofCommitted [] ∧
      (runAll perform (ofCommitted targets) steps).1 =
        (runAll Outline.perform ⟨targets, 0⟩ steps).1 ∧
      (runAll perform (ofCommitted targets) steps).2.Shows
        (runAll Outline.perform ⟨targets, 0⟩ steps).2 := by
  obtain ⟨answers, last⟩ := runAll_outline (ofCommitted targets) steps
  rw [outline_ofCommitted] at answers last
  refine ⟨rfl, answers, ?_⟩
  rw [← last]
  exact shows_outline _

/-- The second reservation comes before the first is used up. -/
example : (runAll perform empty [.reserve 2, .push default, .reserve 2, .push vacant, .compact]).1 =
    [none, some 0, none, some 1, some 2] := by decide

end Edges

end BehaviorGraph
