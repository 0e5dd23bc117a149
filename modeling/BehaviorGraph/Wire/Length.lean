import BehaviorGraph.Wire.Source

/-!
# Lengths

A length is written in two bytes if it is small and in four if it is not. The four bytes hold the
negated length, so their first bit is one, while the first bit of two bytes is zero: a reader takes
two bytes as a signed number, and goes on to the next two if it is negative.

* `Length.encode`, `Length.width`: the bytes and their number;
* `Length.packed`, `Length.ofNegated`: four bytes from two and two, and the length that they hold;
* `Length.read`: a length off a source. It accepts four bytes for a small length, too.
-/

namespace BehaviorGraph

namespace Length

/-- The largest length that is written in two bytes. -/
def maxShort : Nat := 0x7FFF

/-- The largest length that can be written. -/
def max : Nat := 0x7FFFFFFF

/-- The bytes of a length. One that is negated is positive, so its negation does not overflow. -/
def encode (n : Nat) : Except Fault (List UInt8) :=
  if n ≤ maxShort then .ok (bigEndian 2 (Int16.ofNat n).toUInt16.toNat)
  else if n ≤ max then .ok (bigEndian 4 (-Int32.ofNat n).toUInt32.toNat)
  else .error (.lengthTooLarge n max)

/-- The number of bytes of a length. -/
def width (n : Nat) : Nat := if n ≤ maxShort then 2 else 4

/-- A signed number as a size. A negative one would wrap around. -/
def ofInt (int : Int32) : Nat := int.toInt64.toUInt64.toNat

/-- The number with the given halves. The sign is that of the first one. -/
def packed (high : Int16) (low : UInt16) : Int32 := high.toInt32 <<< 16 ||| low.toUInt32.toInt32

/-- The length with the given negation. The smallest number is the negation of no length. -/
def ofNegated (int : Int32) : Except Fault Nat :=
  if int = Int32.minValue then .error .lengthOutOfRange else .ok (ofInt (-int))

/-- A length off a source. -/
def read : Decoder Fault Nat := do
  let first := Int16.ofNat (← Decoder.number 2)
  if 0 ≤ first then
    return ofInt first.toInt32
  let second := UInt16.ofNat (← Decoder.number 2)
  ofNegated (packed first second)

end Length

end BehaviorGraph
