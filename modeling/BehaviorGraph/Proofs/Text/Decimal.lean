import BehaviorGraph.NodeId
import Std.Data.String.ToInt

/-!
# Decimal numbers in a text

A decimal number is made of digits, and of a minus sign if it is negative. Where any other character
follows it, the text says where the number ends and which number it is.

* `append_cons_inj`: a text up to the first place of a character;
* `notMem_toString_nat`, `notMem_toString_int`: the characters that are in no decimal number;
* **`Fingerprint.decimal_inj`**, **`NodeId.index_inj`**: different fingerprints and different tableau
  indices have different texts.
-/

namespace BehaviorGraph

/-- A character that is in neither of two texts ends both of them. -/
theorem append_cons_inj {α : Type} {c : α} {xs ys rest rest' : List α} (hx : c ∉ xs) (hy : c ∉ ys) :
    xs ++ c :: rest = ys ++ c :: rest' ↔ xs = ys ∧ rest = rest' := by
  constructor
  · intro same
    obtain ⟨_ | ⟨d, more⟩, rfl, tail⟩ | ⟨_ | ⟨d, more⟩, rfl, tail⟩ := List.append_eq_append_iff.1 same
    · exact ⟨(List.append_nil xs).symm, (List.cons.inj tail).2⟩
    · obtain ⟨rfl, -⟩ := List.cons.inj tail
      exact absurd (List.mem_append_right xs List.mem_cons_self) hy
    · exact ⟨List.append_nil ys, (List.cons.inj tail).2.symm⟩
    · obtain ⟨rfl, -⟩ := List.cons.inj tail
      exact absurd (List.mem_append_right ys List.mem_cons_self) hx
  · rintro ⟨rfl, rfl⟩
    rfl

/-! ## The characters of a number -/

section Characters

variable {c : Char} (digit : c.isDigit = false)

include digit

theorem notMem_toString_nat (n : Nat) : c ∉ (toString n).toList := by
  rw [Nat.toString_eq_ofList_toDigits, String.toList_ofList]
  intro there
  have isDigit := Nat.isDigit_of_mem_toDigits (by decide) (by decide) there
  cases digit.symm.trans isDigit

theorem notMem_toString_int (sign : c ≠ '-') (n : Int) : c ∉ (toString n).toList := by
  rw [Int.toString_eq_repr, Int.repr_eq_if]
  split
  · exact notMem_toString_nat digit n.toNat
  · have rest := notMem_toString_nat digit (-n).toNat
    rw [String.toList_append, List.mem_append]
    rintro (there | there)
    · exact sign (List.mem_singleton.1 there)
    · exact rest there

end Characters

/-! ## Fingerprints and tableau indices -/

/-- **Different fingerprints have different signed decimal texts.** -/
theorem Fingerprint.decimal_inj {p q : Fingerprint} : p.decimal = q.decimal ↔ p = q := by
  constructor
  · intro same
    have signed : p.signed = q.signed := Int64.toInt_inj.1 (Int.repr_inj.1 same)
    have bits := congrArg Int64.toUInt64 signed
    simp only [Fingerprint.signed, UInt64.toUInt64_toInt64] at bits
    obtain ⟨a⟩ := p
    exact congrArg Fingerprint.mk bits
  · rintro rfl
    rfl

/-- **Different tableau indices have different texts.** -/
theorem NodeId.index_inj {v w : NodeId} : v.index = w.index ↔ v.tableau = w.tableau := by
  constructor
  · intro same
    exact Int32.toInt_inj.1 (Int.repr_inj.1 same)
  · intro same
    rw [index, same, index]

end BehaviorGraph
