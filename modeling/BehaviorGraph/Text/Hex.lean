/-!
# Fixed-width hexadecimal

A number printed in a set number of lower-case hexadecimal digits, most significant digit first.

* `hexDigits`: the digits as characters;
* `hex`: the digits as a string.
-/

namespace BehaviorGraph

/-- The last `width` hexadecimal digits of a number, most significant first. -/
def hexDigits : (width n : Nat) → List Char
  | 0, _ => []
  | width + 1, n => hexDigits width (n / 16) ++ [Nat.digitChar (n % 16)]

/-- The last `width` hexadecimal digits of `n`. -/
def hex (width n : Nat) : String := String.ofList (hexDigits width n)

end BehaviorGraph
