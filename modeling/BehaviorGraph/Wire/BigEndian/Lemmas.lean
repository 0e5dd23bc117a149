import BehaviorGraph.Wire.BigEndian
import Mathlib.Algebra.Group.Nat.Defs
import Mathlib.Data.List.Induction

/-!
# Big-endian numbers and their bytes

* `ofBigEndian_append`: one more byte at the end;
* **`ofBigEndian_bigEndian`**: the bytes of a number keep it modulo the power of 256 that they can
  hold;
* **`bigEndian_ofBigEndian`**: bytes are those of the number they make;
* `bigEndian_add`: the front and the back of the bytes of a number.
-/

namespace BehaviorGraph

theorem ofBigEndian_append (bytes : List UInt8) (byte : UInt8) :
    ofBigEndian (bytes ++ [byte]) = 256 * ofBigEndian bytes + byte.toNat := by
  simp [ofBigEndian]

/-- **The bytes of a number keep it modulo the power of 256 that they can hold.** -/
theorem ofBigEndian_bigEndian (width n : Nat) :
    ofBigEndian (bigEndian width n) = n % 256 ^ width := by
  induction width generalizing n with
  | zero => rw [Nat.pow_zero, Nat.mod_one]; rfl
  | succ width ih =>
    have byte : (UInt8.ofNat n).toNat = n % 256 := UInt8.toNat_ofNat'
    rw [bigEndian, ofBigEndian_append, ih, byte, Nat.pow_succ', Nat.mod_mul, Nat.add_comm]

/-- **Bytes are those of the number they make.** -/
theorem bigEndian_ofBigEndian (bytes : List UInt8) :
    bigEndian bytes.length (ofBigEndian bytes) = bytes := by
  induction bytes using List.reverseRecOn with
  | nil => rfl
  | append_singleton bytes byte ih =>
    have small := byte.toNat_lt
    have quotient : (256 * ofBigEndian bytes + byte.toNat) / 256 = ofBigEndian bytes := by omega
    have last : UInt8.ofNat (256 * ofBigEndian bytes + byte.toNat) = byte := by
      apply UInt8.toNat_inj.1
      rw [UInt8.toNat_ofNat']
      omega
    rw [ofBigEndian_append, List.length_append, List.length_singleton, bigEndian, quotient, ih, last]

theorem ofBigEndian_lt (bytes : List UInt8) : ofBigEndian bytes < 256 ^ bytes.length := by
  rw [← bigEndian_ofBigEndian bytes, ofBigEndian_bigEndian, length_bigEndian]
  exact Nat.mod_lt _ (Nat.pow_pos (by decide))

theorem bigEndian_mod (width n : Nat) : bigEndian width (n % 256 ^ width) = bigEndian width n := by
  have := bigEndian_ofBigEndian (bigEndian width n)
  rwa [ofBigEndian_bigEndian, length_bigEndian] at this

theorem bigEndian_add (front back n : Nat) :
    bigEndian (front + back) n = bigEndian front (n / 256 ^ back) ++ bigEndian back n := by
  induction back generalizing n with
  | zero => rw [Nat.pow_zero, Nat.div_one, bigEndian, List.append_nil, Nat.add_zero]
  | succ back ih =>
    rw [← Nat.add_assoc, bigEndian, bigEndian, ih, Nat.div_div_eq_div_mul, ← Nat.pow_succ',
      List.append_assoc]

end BehaviorGraph
