import BehaviorGraph.Wire.Pour

/-!
# Byte sinks

A sink takes bytes until it is full, and at most a few on each call. A full sink refuses the call or
takes nothing.

* `Sink`, `Sink.write`: a single call;
* `Sink.put`, `Sink.putAll`: one field, and fields in a row.
-/

namespace BehaviorGraph

/-- What was taken, how much more may be taken in all and on each call, and the fault of a full
sink, if it has one. -/
structure Sink where
  taken : Array UInt8
  room : Nat
  chunk : Nat
  whenFull : Option Fault

namespace Sink

/-- One call; it answers how many bytes were taken. -/
def write (bytes : List UInt8) (s : Sink) : Except Fault Nat × Sink :=
  if s.room = 0 then
    match s.whenFull with
    | some fault => (.error fault, s)
    | none => (.ok 0, s)
  else
    let n := min bytes.length (min s.chunk s.room)
    (.ok n, { s with taken := s.taken ++ bytes.take n, room := s.room - n })

/-- All bytes of a field, by as many calls as it takes. -/
def put (s : Sink) (bytes : List UInt8) : Except Fault Unit × Sink :=
  let p := pour write bytes s
  (p.outcome .nothingTaken, p.state)

/-- The fields one after another, up to the first that fails. -/
def putAll (s : Sink) : List (List UInt8) → Except Fault Unit × Sink
  | [] => (.ok (), s)
  | field :: fields =>
    match s.put field with
    | (.error fault, s) => (.error fault, s)
    | (.ok (), s) => s.putAll fields

end Sink

end BehaviorGraph
