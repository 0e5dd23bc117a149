/-!
# Settings

Where temporary node logs go, how much of them is buffered, and when unused slots are reported.

* `Ratio`: a floating-point share that keeps its exact bits;
* `Settings`, `Settings.directory`.
-/

namespace BehaviorGraph

/-- A floating-point number, kept by its bits so that no two of them are confused. -/
structure Ratio where
  bits : UInt64

namespace Ratio

/-- The value of a ratio. -/
def toFloat (r : Ratio) : Float := .ofBits r.bits

/-- Ratios compare as numbers do: zero equals its negative, and what is no number equals nothing. -/
instance : BEq Ratio := ⟨fun a b => a.toFloat == b.toFloat⟩

/-- One half. -/
def half : Ratio := ⟨0x3fe0000000000000⟩

end Ratio

/-- How node logs are kept and nodes are watched. -/
structure Settings where
  /-- the directory of temporary node logs, the system's own if none is given -/
  spillDirectory : Option String := none
  /-- the capacity of the write buffer -/
  bufferBytes : Nat := 64 * 1024
  /-- realigning a node is reported if a smaller share of its slots was used -/
  overheadRatio : Ratio := .half
  deriving BEq

/-- The directory of temporary node logs, where `systemDirectory` is the system's own. -/
def Settings.directory (s : Settings) (systemDirectory : String) : String :=
  s.spillDirectory.getD systemDirectory

end BehaviorGraph
