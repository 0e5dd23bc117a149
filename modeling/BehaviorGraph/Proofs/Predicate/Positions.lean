import BehaviorGraph.Predicate.Truths
import BehaviorGraph.Proofs.Except

/-!
# Positions of predicates

Where the predicates of a layout are kept, as plain numbers. The checked sums and products of sizes
give these numbers as long as the bits of all edges can be counted.

* `Layout.position`, `Layout.position_lt`, **`Layout.position_inj`**: the bits of the edges lie behind
  the state bits, one after another;
* `Layout.actionBase_ok`, `Layout.actionBit_ok`, `Layout.bitCount_ok`: no misuse;
* `mem_truePositions`, `Layout.actionPositions`, `Truths.recordActions_eq`: the bits that recording
  adds, which do not depend on what was recorded before.
-/

namespace BehaviorGraph

theorem mem_truePositions {values : List Bool} {i : Nat} :
    i ∈ truePositions values ↔ values[i]? = some true := by
  simp only [truePositions, List.mem_filterMap, Prod.exists, List.mem_zipIdx_iff_getElem?]
  constructor
  · rintro ⟨value, k, there, found⟩
    cases value with
    | false => cases found
    | true =>
      cases found
      exact there
  · intro there
    exact ⟨true, i, there, rfl⟩

theorem lt_of_mem_truePositions {values : List Bool} {i : Nat} (h : i ∈ truePositions values) :
    i < values.length := by
  obtain ⟨inside, -⟩ := List.getElem?_eq_some_iff.1 (mem_truePositions.1 h)
  exact inside

/-! ## Sums of sizes -/

namespace Size

theorem add_ok {a b : Nat} (h : a + b < limit) : add a b = .ok (a + b) := if_pos h

theorem lt_of_add_ok {a b c : Nat} (h : add a b = .ok c) : a + b < limit := by
  unfold add at h
  split at h
  · assumption
  · cases h

theorem mul_ok {a b : Nat} (h : a * b < limit) : mul a b = .ok (a * b) := if_pos h

theorem mapM_add_ok {base : Nat} {is : List Nat} (h : ∀ i ∈ is, base + i < limit) :
    is.mapM (add base) = .ok (is.map (base + ·)) := by
  induction is with
  | nil => rfl
  | cons i is ih =>
    obtain ⟨first, others⟩ := List.forall_mem_cons.1 h
    rw [List.mapM_cons, add_ok first, ih others]
    rfl

theorem eq_of_mapM_add {base : Nat} {is sums : List Nat} (h : is.mapM (add base) = .ok sums) :
    sums = is.map (base + ·) := by
  induction is generalizing sums with
  | nil => exact (Except.ok.inj h).symm
  | cons i is ih =>
    rw [List.mapM_cons] at h
    obtain ⟨sum, first, h⟩ := exists_of_bind_ok h
    obtain ⟨later, others, h⟩ := exists_of_bind_ok h
    rw [← Except.ok.inj h, List.map_cons, eq_of_checked first, ih others]

end Size

/-! ## Layouts -/

namespace Layout

variable {l : Layout} {edge i count : Nat}

/-- The bit of action predicate `i` along an edge. -/
def position (l : Layout) (edge i : Nat) : Nat := l.states + l.actions * edge + i

theorem states_le_position : l.states ≤ l.position edge i :=
  Nat.le_trans (Nat.le_add_right _ _) (Nat.le_add_right _ _)

theorem position_lt (edges : edge < count) (hi : i < l.actions) :
    l.position edge i < l.states + l.actions * count := by
  have whole : l.actions * (edge + 1) ≤ l.actions * count := Nat.mul_le_mul_left _ edges
  rw [Nat.mul_succ] at whole
  rw [position]
  omega

/-- **Two bits of edges are the same only for one edge and one predicate.** -/
theorem position_inj {edge' i' : Nat} (hi : i < l.actions) (hi' : i' < l.actions)
    (same : l.position edge i = l.position edge' i') : edge = edge' ∧ i = i' := by
  rw [position, position, Nat.add_assoc, Nat.add_assoc] at same
  have same := Nat.add_left_cancel same
  have pos : 0 < l.actions := Nat.zero_lt_of_lt hi
  have edges := congrArg (· / l.actions) same
  simp only [Nat.mul_add_div pos, Nat.div_eq_of_lt hi, Nat.div_eq_of_lt hi', Nat.add_zero] at edges
  subst edges
  exact ⟨rfl, Nat.add_left_cancel same⟩

theorem base_lt (room : l.states + l.actions * count < Size.limit) (edges : edge < count) :
    l.states + l.actions * edge < Size.limit := by
  have whole : l.actions * edge ≤ l.actions * count := Nat.mul_le_mul_left _ (Nat.le_of_lt edges)
  omega

theorem actionBase_ok (room : l.states + l.actions * edge < Size.limit) :
    l.actionBase edge = .ok (l.states + l.actions * edge) := by
  have product : l.actions * edge < Size.limit := by omega
  unfold actionBase
  rw [Size.mul_ok product]
  exact Size.add_ok room

theorem eq_of_actionBase {base : Nat} (h : l.actionBase edge = .ok base) :
    base = l.states + l.actions * edge := by
  obtain ⟨skipped, product, sum⟩ := exists_of_bind_ok h
  rw [eq_of_checked sum, eq_of_checked product]

theorem actionBit_ok (room : l.states + l.actions * count < Size.limit) (edges : edge < count)
    (hi : i < l.actions) : l.actionBit edge i = .ok (l.position edge i) := by
  have bit := position_lt edges hi
  rw [position] at bit
  rw [actionBit, if_pos hi, actionBase_ok (by omega)]
  exact Size.add_ok (by omega)

theorem bitCount_ok (room : l.states + l.actions * count < Size.limit) :
    l.bitCount count = .ok (l.states + l.actions * count) := actionBase_ok room

/-! ## Recording action predicates -/

/-- The bits of the true values of an edge. -/
def actionPositions (l : Layout) (edge : Nat) (values : List Bool) : Except Misuse (List Nat) :=
  if values.length ≤ l.actions then do
    let base ← l.actionBase edge
    (truePositions values).mapM (Size.add base)
  else .error (.tooManyActions values.length l.actions)

theorem actionPositions_ok {values : List Bool} (few : values.length ≤ l.actions)
    (room : l.states + l.actions * count < Size.limit) (edges : edge < count) :
    l.actionPositions edge values = .ok ((truePositions values).map (l.position edge)) := by
  rw [actionPositions, if_pos few, actionBase_ok (base_lt room edges)]
  apply Size.mapM_add_ok
  intro i there
  have inside := lt_of_mem_truePositions there
  exact Nat.lt_trans (position_lt edges (Nat.lt_of_lt_of_le inside few)) room

theorem eq_of_actionPositions {values : List Bool} {positions : List Nat}
    (h : l.actionPositions edge values = .ok positions) :
    positions = (truePositions values).map (l.position edge) := by
  rw [actionPositions] at h
  split at h
  · obtain ⟨first, base, sums⟩ := exists_of_bind_ok h
    rw [Size.eq_of_mapM_add sums, eq_of_actionBase base]
    rfl
  · cases h

end Layout

/-- Recording adds the same bits whatever was recorded before. -/
theorem Truths.recordActions_eq (t : Truths) (l : Layout) (edge : Nat) (values : List Bool) :
    t.recordActions l edge values =
      (l.actionPositions edge values).map fun positions => ⟨t.bits.insertAll positions⟩ := by
  rw [recordActions, Layout.actionPositions]
  split
  · cases l.actionBase edge with
    | error misuse => rfl
    | ok base =>
      change ((truePositions values).mapM (Size.add base) >>= _) =
        ((truePositions values).mapM (Size.add base)).map _
      cases (truePositions values).mapM (Size.add base) <;> rfl
  · rfl

end BehaviorGraph
