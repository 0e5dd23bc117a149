import BehaviorGraph.Proofs.Predicate.Positions
import Mathlib.Logic.ExistsUnique

/-!
# The bits of a layout

The predicates of a node and of its edges share one row of bits. The state predicates come first, then
the action predicates of one edge after another, so that a bit tells the predicate it belongs to: by
quotient and remainder, if it lies behind the state bits.

* `Predicate`, `Layout.Has`: the predicates of a node with so many edges;
* `Layout.bit`, `Layout.place`: the bit of a predicate, checked and as a plain number;
* `Layout.predicateAt`: the predicate that a bit belongs to;
* `Layout.predicateAt_place`, `Layout.place_predicateAt`: each is the inverse of the other;
* **`Layout.bits_tiled`**: the bits of the predicates are the bits of the node, each of them once.
-/

namespace BehaviorGraph

/-- A state predicate of a node, or an action predicate along one of its edges. -/
inductive Predicate
  | state (i : Nat)
  | action (edge i : Nat)
  deriving DecidableEq

namespace Layout

/-- The predicate is one of the layout, and its edge is one of the first `count`. -/
def Has (l : Layout) (count : Nat) : Predicate → Prop
  | .state i => i < l.states
  | .action edge i => edge < count ∧ i < l.actions

/-- The bit of a predicate. -/
def bit (l : Layout) : Predicate → Except Misuse Nat
  | .state i => l.stateBit i
  | .action edge i => l.actionBit edge i

/-- The bit of a predicate as a plain number. -/
def place (l : Layout) : Predicate → Nat
  | .state i => i
  | .action edge i => l.position edge i

/-- The predicate that a bit belongs to. -/
def predicateAt (l : Layout) (bit : Nat) : Predicate :=
  if bit < l.states then .state bit
  else .action ((bit - l.states) / l.actions) ((bit - l.states) % l.actions)

variable {l : Layout} {count : Nat} {p q : Predicate}

/-! ## Places -/

theorem place_lt (has : l.Has count p) : l.place p < l.states + l.actions * count := by
  cases p with
  | state i => exact Nat.lt_of_lt_of_le has (Nat.le_add_right _ _)
  | action edge i => exact position_lt has.1 has.2

/-- The edge is the quotient and the predicate the remainder of what is behind the state bits. -/
theorem predicateAt_place (has : l.Has count p) : l.predicateAt (l.place p) = p := by
  cases p with
  | state i => exact if_pos has
  | action edge i =>
    have hi : i < l.actions := has.2
    have pos : 0 < l.actions := Nat.zero_lt_of_lt hi
    have behind : l.position edge i - l.states = l.actions * edge + i := by
      unfold position
      omega
    rw [place, predicateAt, if_neg (Nat.not_lt_of_le states_le_position), behind,
      Nat.mul_add_div pos, Nat.mul_add_mod, Nat.div_eq_of_lt hi, Nat.mod_eq_of_lt hi, Nat.add_zero]

theorem place_inj (hp : l.Has count p) (hq : l.Has count q) (same : l.place p = l.place q) :
    p = q := by
  rw [← predicateAt_place hp, ← predicateAt_place hq, same]

theorem place_predicateAt {bit : Nat} (below : bit < l.states + l.actions * count) :
    l.Has count (l.predicateAt bit) ∧ l.place (l.predicateAt bit) = bit := by
  unfold predicateAt
  split
  next inside => exact ⟨inside, rfl⟩
  next behind =>
    have rest : bit - l.states < l.actions * count := by omega
    -- without action predicates there is no bit behind the state bits
    have pos : 0 < l.actions := Nat.pos_of_mul_pos_right (Nat.zero_lt_of_lt rest)
    have whole := Nat.div_add_mod (bit - l.states) l.actions
    refine ⟨⟨Nat.div_lt_of_lt_mul rest, Nat.mod_lt _ pos⟩, ?_⟩
    rw [place, position]
    omega

/-! ## Bits -/

section Room

variable (room : l.states + l.actions * count < Size.limit)

include room

theorem bit_ok (has : l.Has count p) : l.bit p = .ok (l.place p) := by
  cases p with
  | state i => exact if_pos has
  | action edge i => exact actionBit_ok room has.1 has.2

theorem bit_inj (hp : l.Has count p) (hq : l.Has count q) (same : l.bit p = l.bit q) : p = q := by
  rw [bit_ok room hp, bit_ok room hq] at same
  exact place_inj hp hq (Except.ok.inj same)

theorem existsUnique_bit {bit : Nat} (below : bit < l.states + l.actions * count) :
    ∃! p, l.Has count p ∧ l.bit p = .ok bit := by
  obtain ⟨has, place⟩ := place_predicateAt below
  have kept : l.bit (l.predicateAt bit) = .ok bit := by rw [bit_ok room has, place]
  refine ⟨l.predicateAt bit, ⟨has, kept⟩, ?_⟩
  rintro p ⟨has', kept'⟩
  exact bit_inj room has' has (kept'.trans kept.symm)

end Room

/-- **The predicates of a node share its bits without gaps and without overlaps**, and as long as
these can be counted, no misuse is found. -/
theorem bits_tiled (l : Layout) (count : Nat)
    (room : l.states + l.actions * count < Size.limit) :
    l.bitCount count = .ok (l.states + l.actions * count) ∧
    (∀ edge < count, l.actionBase edge = .ok (l.states + l.actions * edge)) ∧
    (∀ p, l.Has count p → ∃ bit, l.bit p = .ok bit ∧ bit < l.states + l.actions * count) ∧
    (∀ p q, l.Has count p → l.Has count q → l.bit p = l.bit q → p = q) ∧
    ∀ bit < l.states + l.actions * count, ∃! p, l.Has count p ∧ l.bit p = .ok bit := by
  refine ⟨bitCount_ok room, ?_, ?_, ?_, ?_⟩
  · intro edge inside
    exact actionBase_ok (base_lt room inside)
  · intro p has
    exact ⟨l.place p, bit_ok room has, place_lt has⟩
  · intro p q hp hq
    exact bit_inj room hp hq
  · intro bit below
    exact existsUnique_bit room below

/-- The largest number of edges whose bits can be counted, with three predicates of each kind. The
last bit is that of the last predicate. -/
theorem full_tiled :
    let l : Layout := ⟨3, 3⟩
    let count := 6148914691236517204
    l.states + l.actions * count < Size.limit ∧ l.bitCount count = .ok (Size.limit - 1) ∧
      l.bit (.action (count - 1) 2) = .ok (Size.limit - 2) ∧
      ∃! p, l.Has count p ∧ l.bit p = .ok (Size.limit - 2) := by
  intro l count
  have all : l.states + l.actions * count = Size.limit - 1 := by decide
  have room : l.states + l.actions * count < Size.limit := by decide
  obtain ⟨bits, -, -, -, belongs⟩ := bits_tiled l count room
  rw [all] at bits
  exact ⟨room, bits, by cbv, belongs (Size.limit - 2) (by decide)⟩

end Layout

end BehaviorGraph
