/-!
# Growable bit sets

A set of natural numbers kept as 64-bit words, number `i` in word `i / 64`. Inserting a number adds
zero words up to its own; nothing is ever taken out. Two bit sets are equal when their words are, so
zero words at the end count.

* `BitSet.contains`, `BitSet.insert`, `BitSet.insertAll`, `BitSet.wordCount`;
* `BitSet.toList`: the members, ascending;
* `BitSet.label`: the members as a text.
-/

namespace BehaviorGraph

/-- A set of natural numbers, one bit each. -/
structure BitSet where
  words : Array UInt64
  deriving DecidableEq

namespace BitSet

/-- The bit set without any word. -/
def empty : BitSet := ⟨#[]⟩

instance : Inhabited BitSet := ⟨empty⟩

/-- The number of words. -/
def wordCount (s : BitSet) : Nat := s.words.size

/-- Whether `i` is a member; nothing past the last word is. -/
def contains (s : BitSet) (i : Nat) : Bool := (s.words.getD (i / 64) 0).toNat.testBit (i % 64)

/-- The words of `s`, with zero words added until there are at least `count`. -/
def padded (s : BitSet) (count : Nat) : Array UInt64 :=
  s.words ++ Array.replicate (count - s.words.size) 0

/-- The set with the member `i` added. -/
def insert (s : BitSet) (i : Nat) : BitSet :=
  ⟨(s.padded (i / 64 + 1)).modify (i / 64) (· ||| 1 <<< (i % 64).toUInt64)⟩

/-- The set with all the given members added, from the first to the last. -/
def insertAll (s : BitSet) (members : List Nat) : BitSet := members.foldl insert s

/-- The positions of the one bits of `n`, lowest first, where its lowest bit is at `base`. -/
def onesFrom (base n : Nat) : List Nat :=
  if n = 0 then []
  else if n % 2 = 1 then base :: onesFrom (base + 1) (n / 2)
  else onesFrom (base + 1) (n / 2)
termination_by n

/-- The members, in ascending order. -/
def toList (s : BitSet) : List Nat :=
  s.words.toList.zipIdx.flatMap fun (word, k) => onesFrom (64 * k) word.toNat

/-- The members between braces. -/
def label (s : BitSet) : String :=
  "\x7b" ++ ", ".intercalate (s.toList.map toString) ++ "\x7d"

end BitSet

end BehaviorGraph
