import BehaviorGraph.Storage.Handle

/-!
# Buffered appending

An appender gathers bytes in a buffer and hands them to its file in larger writes. What it is given
at once goes into the buffer as a whole or not at all; bytes that do not fit beside those buffered
before wait until these are written, and what is as large as the buffer itself goes straight to the
file.

* `Appender`, `Appender.spare`;
* `Appender.flush`: empty the buffer;
* `Appender.put`: add bytes;
* `Appender.cutBack`: empty the buffer and cut the file.
-/

namespace BehaviorGraph

/-- A handle with the bytes that wait to be written through it. -/
structure Appender where
  handle : Handle
  capacity : Nat
  pending : List UInt8

namespace Appender

/-- The free space of the buffer. -/
def spare (a : Appender) : Nat := a.capacity - a.pending.length

/-- Write out the buffer. Bytes that were stored leave it even if a later write fails. -/
def flush (a : Appender) (v : Volume) : Except Fault Unit × Appender × Volume :=
  let p := pour Handle.write a.pending (a.handle, v)
  (p.outcome .bufferNotTaken, { a with handle := p.state.1, pending := p.rest }, p.state.2)

/-- Add bytes to an appender whose buffer has room for them or is empty. -/
def place (a : Appender) (v : Volume) (bytes : List UInt8) :
    Except Fault Unit × Appender × Volume :=
  if a.capacity ≤ bytes.length then
    let (result, h, v) := a.handle.put v bytes
    (result, { a with handle := h }, v)
  else (.ok (), { a with pending := a.pending ++ bytes }, v)

/-- Add bytes. -/
def put (a : Appender) (v : Volume) (bytes : List UInt8) :
    Except Fault Unit × Appender × Volume :=
  if a.spare < bytes.length then
    match a.flush v with
    | (.error fault, a, v) => (.error fault, a, v)
    | (.ok (), a, v) => a.place v bytes
  else a.place v bytes

/-- Empty the buffer, cut the file to the given length and go on from there. -/
def cutBack (a : Appender) (v : Volume) (length : Nat) : Except Fault Unit × Appender × Volume :=
  match a.flush v with
  | (.error fault, a, v) => (.error fault, a, v)
  | (.ok (), a, v) =>
    let (result, h, v) := a.handle.truncateTo v length
    (result, { a with handle := h }, v)

end Appender

end BehaviorGraph
