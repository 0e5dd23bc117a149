import BehaviorGraph.Wire.Length
import BehaviorGraph.Wire.Sink

/-!
# Fields

The primitive values that byte records are made of: signed integers of 16, 32 and 64 bits, and
lengths. All are big-endian.

* `Field`, `Field.encode`: a value with its kind, and its bytes;
* `Field.write`: a value written to a sink;
* `FieldKind`, `FieldKind.read`: a value of a known kind off a source.
-/

namespace BehaviorGraph

/-- The kinds of primitive values. -/
inductive FieldKind
  | int16
  | int32
  | int64
  | length
  deriving DecidableEq

/-- A primitive value. -/
inductive Field
  | int16 (value : Int16)
  | int32 (value : Int32)
  | int64 (value : Int64)
  | length (value : Nat)
  deriving DecidableEq

namespace Field

/-- The kind of a value. -/
def kind : Field → FieldKind
  | int16 _ => .int16
  | int32 _ => .int32
  | int64 _ => .int64
  | length _ => .length

/-- The bytes of a value. Only a length can be too large. -/
def encode : Field → Except Fault (List UInt8)
  | int16 value => .ok (bigEndian 2 value.toUInt16.toNat)
  | int32 value => .ok (bigEndian 4 value.toUInt32.toNat)
  | int64 value => .ok (bigEndian 8 value.toUInt64.toNat)
  | length value => Length.encode value

/-- Write a value to a sink. Of a value that is too large nothing is written. -/
def write (f : Field) (s : Sink) : Except Fault Unit × Sink :=
  match f.encode with
  | .error fault => (.error fault, s)
  | .ok bytes => s.put bytes

end Field

/-- A value of the given kind off a source. -/
def FieldKind.read : FieldKind → Decoder Fault Field
  | int16 => do return .int16 (UInt16.ofNat (← Decoder.number 2)).toInt16
  | int32 => do return .int32 (UInt32.ofNat (← Decoder.number 4)).toInt32
  | int64 => do return .int64 (UInt64.ofNat (← Decoder.number 8)).toInt64
  | length => do return .length (← Length.read)

end BehaviorGraph
