import BehaviorGraph.Wire.Fault

/-!
# Media

A medium decides how the calls made on it end. An answer may depend on how many calls were made
before, so that every schedule of short writes and failures is a medium.

* `Medium`;
* `Medium.reliable`: nothing fails;
* `Medium.limited`: no file grows past a limit;
* `Medium.full`: nothing can be stored.
-/

namespace BehaviorGraph

/-- How the calls on a medium end; `call` numbers the calls. -/
structure Medium where
  /-- how many of `count` bytes offered at `position` are stored -/
  write : (call position count : Nat) → Except Fault Nat
  /-- whether a file of `length` bytes may be given the length `newLength` -/
  resize : (call length newLength : Nat) → Except Fault Unit
  /-- whether a file can be opened for reading -/
  openRead : (call : Nat) → Except Fault Unit
  /-- whether a file can be moved to `position` -/
  seek : (call position : Nat) → Except Fault Unit
  /-- after how many bytes reading from `position` fails, and how, if it does -/
  breaksOff : (call position : Nat) → Option (Nat × Fault)

namespace Medium

/-- Every call succeeds in full. -/
def reliable : Medium where
  write _ _ count := .ok count
  resize _ _ _ := .ok ()
  openRead _ := .ok ()
  seek _ _ := .ok ()
  breaksOff _ _ := none

/-- No byte is stored at or past `limit`: a write that begins below it is short, all others fail,
and so does every growth past it. -/
def limited (limit : Nat) : Medium :=
  { reliable with
    write := fun _ position count =>
      if position < limit then .ok (min count (limit - position))
      else .error (.system .fileTooLarge)
    resize := fun _ length newLength =>
      if length < newLength ∧ limit < newLength then .error (.system .fileTooLarge) else .ok () }

/-- No byte is stored, and no length can be set. -/
def full : Medium :=
  { reliable with
    write := fun _ _ _ => .error (.system .storageFull)
    resize := fun _ _ _ => .error (.system .invalidArgument) }

end Medium

end BehaviorGraph
