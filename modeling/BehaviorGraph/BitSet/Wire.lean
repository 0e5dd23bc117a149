import BehaviorGraph.BitSet
import BehaviorGraph.Wire.Length

/-!
# Bit sets as bytes

The word count as a length, then every word in eight bytes, big-endian. Zero words at the end are
written, too.

* `BitSet.fields`: the byte fields, one after another; `BitSet.byteCount`: their total size;
* `BitSet.encode`: all bytes at once;
* `BitSet.readWord`, `BitSet.read`: a word and a bit set off a source.
-/

namespace BehaviorGraph

namespace BitSet

/-- The word count and the words, each as the bytes it is written in. -/
def fields (s : BitSet) : Except Fault (List (List UInt8)) := do
  let count ← Length.encode s.wordCount
  return count :: s.words.toList.map fun word => bigEndian 8 word.toNat

/-- The number of bytes that a bit set takes. -/
def byteCount (s : BitSet) : Nat := Length.width s.wordCount + s.wordCount * 8

/-- The bytes of a bit set. -/
def encode (s : BitSet) : Except Fault (List UInt8) := do
  let fields ← s.fields
  return fields.flatten

/-- A word off a source. -/
def readWord : Decoder Fault UInt64 := do return UInt64.ofNat (← Decoder.number 8)

/-- A bit set off a source. -/
def read : Decoder Fault BitSet := do
  let count ← Length.read
  let words ← Decoder.many count readWord
  return ⟨words.toArray⟩

end BitSet

end BehaviorGraph
