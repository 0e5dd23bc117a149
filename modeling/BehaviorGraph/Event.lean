import BehaviorGraph.NodeId
import BehaviorGraph.Wire.Fault

/-!
# Events

What the library tells a log about its work. Events are diagnostic: no result depends on them.

* `Event`, `Event.severity`, `Event.message`.
-/

namespace BehaviorGraph

/-- How much attention an event asks for. -/
inductive Severity
  | debug
  | warning
  deriving DecidableEq

/-- What happened. -/
inductive Event
  /-- many of the slots reserved for a node's edges were not used -/
  | overAllocated (node : NodeId) (used free allocated : Nat)
  /-- a node log was created -/
  | created
  /-- the buffered records of a node log were written out on request -/
  | flushed (nodes bytes : Nat)
  /-- a failed write could not be undone, so that the log refuses all later ones -/
  | rollbackFailed (offset : Nat) (cause : Fault)
  deriving DecidableEq

namespace Event

/-- How much attention the event asks for. -/
def severity : Event → Severity
  | overAllocated .. => .warning
  | created => .debug
  | flushed .. => .debug
  | rollbackFailed .. => .warning

/-- The event in words. -/
def message : Event → String
  | overAllocated .. => "transition pre-allocation overhead above threshold"
  | created => "created node file"
  | flushed .. => "flushed node file"
  | rollbackFailed .. => "could not roll back failed node write; node file poisoned"

end Event

end BehaviorGraph
