import BehaviorGraph.Proofs.Building.Steps
import BehaviorGraph.Proofs.Predicate.Queries

/-!
# Predicate truths are recalled

A node that is built under one layout answers for each state predicate whether it was ever recorded
as true, and for each action predicate whether it was given as true with that very edge.

* `Addition.Under`, `Addition.positionsFrom_ok`: additions under a layout are no misuse as long as
  their bits can be counted;
* `Addition.position_mem_iff`, `Addition.bounds_of_mem_positionsFrom`: the bits of additions;
* `Node.contains_build`: the bits of a node after steps in a row;
* **`Node.build_recalls`**: what a node answers.
-/

namespace BehaviorGraph

open BuildStep

namespace Addition

/-- The addition is made under the layout, with no more values than the layout has predicates. -/
structure Under (a : Addition) (l : Layout) : Prop where
  layout : a.layout = l
  few : ∀ values, a.actions = some values → values.length ≤ l.actions

variable {l : Layout}

theorem Under.lt {a : Addition} {i : Nat} (under : a.Under l) (gives : a.Gives i) :
    i < l.actions := by
  obtain ⟨values, given, there⟩ := gives
  obtain ⟨inside, -⟩ := List.getElem?_eq_some_iff.1 there
  exact Nat.lt_of_lt_of_le inside (under.few values given)

theorem positions_ok {a : Addition} (under : a.Under l) (edge : Nat) {count : Nat}
    (room : l.states + l.actions * count < Size.limit) (edges : edge < count) :
    ∃ bits, a.positions edge = .ok bits := by
  unfold positions
  split
  next values given =>
    rw [under.layout]
    exact ⟨_, Layout.actionPositions_ok (under.few values given) room edges⟩
  next => exact ⟨[], rfl⟩

theorem positionsFrom_ok {additions : List Addition} (edge : Nat) {count : Nat}
    (under : ∀ a ∈ additions, a.Under l) (room : l.states + l.actions * count < Size.limit)
    (edges : edge + additions.length ≤ count) :
    ∃ bits, positionsFrom edge additions = .ok bits := by
  induction additions generalizing edge with
  | nil => exact ⟨[], rfl⟩
  | cons a additions ih =>
    rw [List.length_cons] at edges
    obtain ⟨here, others⟩ := List.forall_mem_cons.1 under
    obtain ⟨first, positions⟩ := positions_ok here edge room (by omega)
    obtain ⟨later, positions'⟩ := ih (edge + 1) others (by omega)
    refine ⟨first ++ later, ?_⟩
    rw [positionsFrom, positions, positions']
    rfl

variable {additions : List Addition} {bits : List Nat}

theorem mem_positionsFrom_of_under (under : ∀ a ∈ additions, a.Under l)
    (positions : positionsFrom 0 additions = .ok bits) {bit : Nat} :
    bit ∈ bits ↔ ∃ (k : Nat) (a : Addition) (i : Nat),
      additions[k]? = some a ∧ a.Gives i ∧ bit = l.position k i := by
  rw [mem_positionsFrom positions]
  refine exists_congr fun k => exists_congr fun a => exists_congr fun i => ?_
  refine and_congr_right fun there => and_congr_right fun _ => ?_
  rw [(under a (List.mem_of_getElem? there)).layout, Nat.zero_add]

/-- **The bits of additions tell them apart.** -/
theorem position_mem_iff (under : ∀ a ∈ additions, a.Under l)
    (positions : positionsFrom 0 additions = .ok bits) {k i : Nat} (hi : i < l.actions) :
    l.position k i ∈ bits ↔ ∃ a, additions[k]? = some a ∧ a.Gives i := by
  rw [mem_positionsFrom_of_under under positions]
  constructor
  · rintro ⟨k', a, i', there, gives, same⟩
    have lt := (under a (List.mem_of_getElem? there)).lt gives
    obtain ⟨rfl, rfl⟩ := Layout.position_inj hi lt same
    exact ⟨a, there, gives⟩
  · rintro ⟨a, there, gives⟩
    exact ⟨k, a, i, there, gives, rfl⟩

theorem bounds_of_mem_positionsFrom (under : ∀ a ∈ additions, a.Under l)
    (positions : positionsFrom 0 additions = .ok bits) {bit : Nat} (member : bit ∈ bits) :
    l.states ≤ bit ∧ bit < l.states + l.actions * additions.length := by
  obtain ⟨k, a, i, there, gives, rfl⟩ := (mem_positionsFrom_of_under under positions).1 member
  obtain ⟨inside, -⟩ := List.getElem?_eq_some_iff.1 there
  have lt := (under a (List.mem_of_getElem? there)).lt gives
  exact ⟨Layout.states_le_position, Layout.position_lt inside lt⟩

end Addition

theorem BuildStep.mem_additions {steps : List BuildStep} {a : Addition} :
    a ∈ additions steps ↔ .add a ∈ steps := by
  unfold additions
  rw [List.mem_filterMap]
  constructor
  · rintro ⟨step, there, found⟩
    cases step <;> cases found
    exact there
  · intro there
    exact ⟨.add a, there, rfl⟩

theorem BuildStep.mem_recordings {steps : List BuildStep} {values : List Bool} :
    values ∈ recordings steps ↔ .recordStates values ∈ steps := by
  unfold recordings
  rw [List.mem_filterMap]
  constructor
  · rintro ⟨step, there, found⟩
    cases step <;> cases found
    exact there
  · intro there
    exact ⟨.recordStates values, there, rfl⟩

namespace Node

/-- The bits of a new node after additions that are no misuse, among other steps. -/
theorem contains_build (id : NodeId) {steps : List BuildStep} {bits : List Nat}
    (positions : Addition.positionsFrom 0 (additions steps) = .ok bits) :
    ∃ n, (new id).build steps = .ok n ∧ n.edgeCount = (additions steps).length ∧
      ∀ bit, n.truths.bits.contains bit = true ↔
        bit ∈ bits ∨ ∃ values, .recordStates values ∈ steps ∧ values[bit]? = some true := by
  have seen := (new id).appearance_build steps
  have empty : (new id).appearance.targets.length = 0 := rfl
  rw [Appearance.build_eq, Appearance.after, empty, positions] at seen
  obtain ⟨n, built, looks⟩ := exists_of_map_ok seen
  refine ⟨n, built, ?_, fun bit => ?_⟩
  · have targets : n.successors = (additions steps).map Addition.target :=
      congrArg Appearance.targets looks
    rw [← length_successors, targets, List.length_map]
  · have truths := congrArg (fun p => p.truths.bits.contains bit = true) looks
    refine (iff_of_eq truths).trans ?_
    change (BitSet.empty.insertAll _).contains bit = true ↔ _
    rw [BitSet.contains_insertAll, BitSet.contains_empty, List.mem_append, List.mem_flatMap]
    simp only [mem_recordings, mem_truePositions, Bool.false_eq_true, false_or]

/-- **Truths are recalled as they were given**, by every way to ask, and no bit behind those of the
edges is set. -/
theorem build_recalls (l : Layout) (id : NodeId) (steps : List BuildStep)
    (states : ∀ values, .recordStates values ∈ steps → values.length ≤ l.states)
    (under : ∀ a, .add a ∈ steps → a.Under l)
    (room : l.states + l.actions * (additions steps).length < Size.limit) :
    ∃ n, (new id).build steps = .ok n ∧ n.edgeCount = (additions steps).length ∧
      (∀ i < l.states, n.state i = true ↔
        ∃ values, .recordStates values ∈ steps ∧ values[i]? = some true) ∧
      (∀ k < n.edgeCount, ∀ i < l.actions, ∃ holds,
        n.action l k i = .ok holds ∧ (n.view l).action k i = .ok holds ∧
          (holds = true ↔ ∃ a, (additions steps)[k]? = some a ∧ a.Gives i)) ∧
      ∀ bit, l.states + l.actions * n.edgeCount ≤ bit → n.truths.bits.contains bit = false := by
  have under' : ∀ a ∈ additions steps, a.Under l := fun a there => under a (mem_additions.1 there)
  obtain ⟨bits, positions⟩ := Addition.positionsFrom_ok 0 under' room (Nat.le_of_eq (Nat.zero_add _))
  obtain ⟨n, built, count, contains⟩ := contains_build id positions
  have bounds {bit : Nat} (there : bit ∈ bits) :=
    Addition.bounds_of_mem_positionsFrom under' positions there
  have inStates {values : List Bool} {bit : Nat} (there : .recordStates values ∈ steps)
      (true' : values[bit]? = some true) : bit < l.states := by
    obtain ⟨inside, -⟩ := List.getElem?_eq_some_iff.1 true'
    exact Nat.lt_of_lt_of_le inside (states values there)
  refine ⟨n, built, count, fun i hi => ?_, fun k hk i hi => ?_, fun bit behind => ?_⟩
  · rw [state, Truths.state, contains, or_iff_right]
    intro there
    exact Nat.not_lt_of_le (bounds there).1 hi
  · refine ⟨n.truths.bits.contains (l.position k i), ?_, ?_, ?_⟩
    · exact action_ok (count ▸ room) hk hi
    · exact view_action_ok (count ▸ room) hk hi
    · rw [contains, or_iff_left, Addition.position_mem_iff under' positions hi]
      rintro ⟨values, there, true'⟩
      exact Nat.not_lt_of_le Layout.states_le_position (inStates there true')
  · rw [Bool.eq_false_iff, ne_eq, contains]
    rw [count] at behind
    rintro (there | ⟨values, there, true'⟩)
    · exact Nat.not_lt_of_le behind (bounds there).2
    · exact Nat.not_lt_of_le (Nat.le_of_add_right_le behind) (inStates there true')

theorem new_recalls :
    let l := Addition.sample.layout
    let steps := [.reserve 3, .add .sample, .recordStates [false, true], .add ⟨l, default, none⟩,
      .realign]
    ∃ n, (new default).build steps = .ok n ∧ n.edgeCount = 2 ∧ n.state 1 = true ∧
      n.action l 0 2 = .ok true ∧ ∀ bit, 76 ≤ bit → n.truths.bits.contains bit = false := by
  intro l steps
  have states : ∀ values, .recordStates values ∈ steps → values.length ≤ l.states := by
    simp [steps, l, Addition.sample]
  have under : ∀ a, .add a ∈ steps → a.Under l := by
    intro a there
    have there : a = .sample ∨ a = ⟨l, default, none⟩ := by simpa [steps] using there
    obtain rfl | rfl := there
    · exact ⟨rfl, fun values given => by cases given; decide⟩
    · exact ⟨rfl, fun values given => nomatch given⟩
  obtain ⟨n, built, count, state, action, behind⟩ :=
    build_recalls l default steps states under (by decide)
  have count : n.edgeCount = 2 := count
  obtain ⟨holds, asked, -, iff⟩ := action 0 (by omega) 2 (by decide)
  refine ⟨n, built, count, ?_, ?_, ?_⟩
  · exact (state 1 (by decide)).2 ⟨[false, true], by simp [steps], rfl⟩
  · rw [asked, iff.2 ⟨.sample, rfl, _, rfl, rfl⟩]
  · rw [count] at behind
    exact behind

end Node

end BehaviorGraph
