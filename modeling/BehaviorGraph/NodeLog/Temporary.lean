import BehaviorGraph.NodeLog

/-!
# Temporary node logs

Temporary logs get names of their own, made of the number of the process and a counter. The counter
moves on whether or not the log can be created, so no name is used twice.

* `TemporaryNames`, `TemporaryNames.next`;
* `NodeLog.createTemporary`.
-/

namespace BehaviorGraph

/-- The next temporary name of a process. -/
structure TemporaryNames where
  process : UInt32
  counter : UInt64

namespace TemporaryNames

/-- The name with the given process and counter. -/
def name (process : UInt32) (counter : UInt64) : String :=
  "tla2_nodes_" ++ toString process.toNat ++ "_" ++ toString counter.toNat ++ ".gn"

/-- The next name, and the names that are left. -/
def next (t : TemporaryNames) : String × TemporaryNames :=
  (name t.process t.counter, { t with counter := t.counter + 1 })

end TemporaryNames

/-- Create a log under the next temporary name, in the directory that the settings give. -/
def NodeLog.createTemporary (names : TemporaryNames) (v : Volume) (systemDirectory : String)
    (settings : Settings) :
    Except PagingError (NodeLog × Volume × List Event) × TemporaryNames :=
  let (name, names) := names.next
  (NodeLog.create v ⟨settings.directory systemDirectory, name⟩ settings, names)

end BehaviorGraph
