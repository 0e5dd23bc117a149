/-!
# Big-endian numbers

Numbers as bytes, most significant byte first.

* `bigEndian`: the bytes of a number; `ofBigEndian`: the number of the bytes;
* `length_bigEndian`: as many bytes as asked for.
-/

namespace BehaviorGraph

/-- The last `width` bytes of a number, most significant first. -/
def bigEndian : (width n : Nat) → List UInt8
  | 0, _ => []
  | width + 1, n => bigEndian width (n / 256) ++ [UInt8.ofNat n]

/-- The number whose bytes are given, most significant first. -/
def ofBigEndian (bytes : List UInt8) : Nat := bytes.foldl (fun n b => 256 * n + b.toNat) 0

@[simp] theorem length_bigEndian (width n : Nat) : (bigEndian width n).length = width := by
  induction width generalizing n with
  | zero => rfl
  | succ width ih => simp [bigEndian, ih]

end BehaviorGraph
