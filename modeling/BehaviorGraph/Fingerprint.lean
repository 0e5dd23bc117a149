import BehaviorGraph.Text.Hex

/-!
# State fingerprints

A behavior graph never holds whole states, only their 64-bit fingerprints. A fingerprint is ordered
as an unsigned number, printed in hexadecimal, or in signed decimal where edges are listed, and
stored as two signed 32-bit halves.

* `Fingerprint`, `Fingerprint.hex`, `Fingerprint.signed`;
* `Fingerprint.high`, `Fingerprint.low`, `Fingerprint.ofHalves`;
* **`Fingerprint.ofHalves_high_low`**: a fingerprint is made up of its halves.
-/

namespace BehaviorGraph

/-- The 64-bit name of an explored state. -/
structure Fingerprint where
  bits : UInt64
  deriving DecidableEq, Inhabited

namespace Fingerprint

/-- Fingerprints are ordered as unsigned numbers. -/
instance : Ord Fingerprint := ⟨fun a b => compare a.bits b.bits⟩

/-- The upper 32 bits, as a signed number. -/
def high (p : Fingerprint) : Int32 := (p.bits >>> 32).toUInt32.toInt32

/-- The lower 32 bits, as a signed number. -/
def low (p : Fingerprint) : Int32 := p.bits.toUInt32.toInt32

/-- The fingerprint with the given halves; the sign of the low half does not reach the high one. -/
def ofHalves (high low : Int32) : Fingerprint :=
  ⟨high.toUInt32.toUInt64 <<< 32 ||| low.toUInt32.toUInt64⟩

/-- **A fingerprint is made up of its halves.** -/
theorem ofHalves_high_low (p : Fingerprint) : ofHalves p.high p.low = p := by
  obtain ⟨bits⟩ := p
  have bound := bits.toNat_lt
  simp only [ofHalves, high, low, mk.injEq]
  apply UInt64.toNat_inj.1
  simp only [UInt64.toNat_or, UInt64.toNat_shiftLeft, UInt32.toNat_toUInt64,
    UInt32.toUInt32_toInt32, UInt64.toNat_toUInt32, UInt64.toNat_shiftRight,
    UInt64.reduceToNat, Nat.reduceMod, Nat.shiftRight_eq_div_pow]
  rw [Nat.mod_eq_of_lt (a := bits.toNat / 2 ^ 32) (by omega),
    Nat.mod_eq_of_lt (a := _ <<< _) (by rw [Nat.shiftLeft_eq]; omega),
    ← Nat.shiftLeft_add_eq_or_of_lt (Nat.mod_lt _ (by decide)), Nat.shiftLeft_eq]
  omega

/-- The fingerprint read as a signed 64-bit number. -/
def signed (p : Fingerprint) : Int64 := p.bits.toInt64

/-- All sixteen hexadecimal digits. -/
def hex (p : Fingerprint) : String := BehaviorGraph.hex 16 p.bits.toNat

/-- The hexadecimal digits marked as a fingerprint. -/
def label (p : Fingerprint) : String := "FP(" ++ p.hex ++ ")"

/-- The signed decimal text. -/
def decimal (p : Fingerprint) : String := toString p.signed.toInt

end Fingerprint

end BehaviorGraph
