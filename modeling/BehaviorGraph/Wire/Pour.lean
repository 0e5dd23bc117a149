import BehaviorGraph.Wire.Fault

/-!
# Pouring bytes into something that takes a few at a time

A single write may take only some of the bytes offered. Pouring offers what is left again until all
bytes are taken, a write is refused, or a write takes nothing.

* `Halt`, `Poured`, `pour`;
* `Poured.outcome`: the halt as a fault.
-/

namespace BehaviorGraph

/-- Why a pouring stopped before its end. -/
inductive Halt
  /-- a write was refused -/
  | refused (fault : Fault)
  /-- a write took nothing -/
  | stalled

/-- The end of a pouring: the bytes that were not taken, why, and the state that is left. -/
structure Poured (σ : Type) where
  rest : List UInt8
  halt : Option Halt
  state : σ

/-- Offer the bytes to `write` until they are all taken or it takes no more. It answers with the
number it took from the front. -/
def pour {σ : Type} (write : List UInt8 → σ → Except Fault Nat × σ) (bytes : List UInt8)
    (s : σ) : Poured σ :=
  if bytes = [] then ⟨[], none, s⟩ else
    match write bytes s with
    | (.error fault, s) => ⟨bytes, some (.refused fault), s⟩
    | (.ok 0, s) => ⟨bytes, some .stalled, s⟩
    | (.ok (n + 1), s) => pour write (bytes.drop (n + 1)) s
termination_by bytes.length
decreasing_by
  have := List.length_pos_iff.2 ‹¬bytes = []›
  simp only [List.length_drop]
  omega

/-- Success, or the fault of the halt, where a stalled write counts as `stalled`. -/
def Poured.outcome {σ : Type} (p : Poured σ) (stalled : Fault) : Except Fault Unit :=
  match p.halt with
  | none => .ok ()
  | some (.refused fault) => .error fault
  | some .stalled => .error stalled

end BehaviorGraph
