import BehaviorGraph.NodeLog
import BehaviorGraph.Proofs.Record.RoundTrip

/-!
# Written nodes

What a log has to remember of the nodes written to it, told by the bare list of these nodes: their
records one after another, and for each identity the offset and the node of its latest record. With
that alone every request to a log could be answered.

* `History`, `History.byteCount`, `History.records`, `History.latest`;
* **`History.records_split`**: the latest record of an identity lies at its offset;
* `History.read`, `History.require`, `History.readInto`, `History.IsLatest`: nodes brought back;
* `Request`, `Reply`, `History.serve`, `History.serveAll`: the replies of a log that never fails.
-/

namespace BehaviorGraph

/-- The nodes written so far, the latest first. -/
abbrev History := List Node

namespace History

/-- The size of all records. -/
def byteCount : History → Nat
  | [] => 0
  | n :: earlier => byteCount earlier + n.byteCount

/-- All records in the order in which they were written. -/
def records : History → List UInt8
  | [] => []
  | n :: earlier => records earlier ++ n.record

/-- The offset of the latest record of an identity, and the node it was made of. -/
def latest : History → NodeId → Option (Nat × Node)
  | [], _ => none
  | n :: earlier, id => if n.id = id then some (byteCount earlier, n) else latest earlier id

@[simp] theorem length_records (h : History) : (records h).length = byteCount h := by
  induction h with
  | nil => rfl
  | cons n earlier ih => rw [records, List.length_append, ih, Node.length_record, byteCount]

variable {h : History} {id : NodeId}

theorem latest_eq_find? (h : History) (id : NodeId) :
    (latest h id).map Prod.snd = h.find? fun n => n.id = id := by
  induction h with
  | nil => rfl
  | cons n earlier ih =>
    rw [latest, List.find?_cons]
    by_cases same : n.id = id
    · rw [if_pos same, decide_eq_true same]
      rfl
    · rw [if_neg same, decide_eq_false same]
      exact ih

theorem latest_eq_none_iff : latest h id = none ↔ ∀ n ∈ h, n.id ≠ id := by
  rw [← Option.map_eq_none_iff (f := Prod.snd), latest_eq_find?, List.find?_eq_none]
  exact forall₂_congr fun n _ => not_congr decide_eq_true_iff

theorem isSome_latest : (latest h id).isSome = true ↔ ∃ n ∈ h, n.id = id := by
  rw [← Option.ne_none_iff_isSome, ne_eq, latest_eq_none_iff]
  push Not
  rfl

theorem mem_of_latest {offset : Nat} {n : Node} (there : latest h id = some (offset, n)) :
    n ∈ h ∧ n.id = id := by
  have found : h.find? (fun n => n.id = id) = some n := by
    rw [← latest_eq_find?, there]
    rfl
  exact ⟨List.mem_of_find?_eq_some found, by simpa using List.find?_some found⟩

/-- **The latest record of an identity lies at its offset.** -/
theorem records_split {offset : Nat} {n : Node} (there : latest h id = some (offset, n)) :
    ∃ front back, records h = front ++ (n.record ++ back) ∧ front.length = offset := by
  induction h with
  | nil => cases there
  | cons m earlier ih =>
    rw [latest] at there
    by_cases same : m.id = id
    · rw [if_pos same] at there
      cases there
      refine ⟨records earlier, [], ?_, length_records earlier⟩
      rw [records, List.append_nil]
    · rw [if_neg same] at there
      obtain ⟨front, back, split, length⟩ := ih there
      refine ⟨front, back ++ m.record, ?_, length⟩
      rw [records, split, List.append_assoc, List.append_assoc]

/-! ## Nodes brought back -/

/-- The node brought back under an identity. -/
def read (h : History) (id : NodeId) : Option Node :=
  (latest h id).map fun found => (Node.new id).refilled found.2

/-- The same, where a node that was never written is an error. -/
def require (h : History) (id : NodeId) : Except PagingError Node :=
  match h.read id with
  | some n => .ok n
  | none => .error (.unknownNode id)

/-- A given node brought up to date, if it was ever written. -/
def readInto (h : History) (n : Node) : Bool × Node :=
  match latest h n.id with
  | some (_, m) => (true, n.refilled m)
  | none => (false, n)

/-- The node has the edges and the words of the last node written under its identity. -/
def IsLatest (h : History) (m : Node) : Prop :=
  ∃ n, (h.find? fun n => n.id = m.id) = some n ∧ m.successors = n.successors ∧
    m.truths.bits.words = n.truths.bits.words

theorem read_of_latest {offset : Nat} {n : Node} (there : latest h id = some (offset, n)) :
    h.read id = some ((Node.new id).refilled n) := by
  rw [read, there, Option.map_some]

theorem read_eq_none_iff : h.read id = none ↔ ∀ n ∈ h, n.id ≠ id := by
  rw [read, Option.map_eq_none_iff, latest_eq_none_iff]

theorem isLatest_refilled {m n : Node} {offset : Nat} (there : h.latest m.id = some (offset, n)) :
    h.IsLatest (m.refilled n) := by
  refine ⟨n, ?_, Edges.committed_ofCommitted _, rfl⟩
  rw [← latest_eq_find?]
  exact congrArg (Option.map Prod.snd) there

theorem isLatest_of_read {m : Node} (found : h.read id = some m) :
    m.id = id ∧ h.IsLatest m := by
  rw [read] at found
  obtain ⟨⟨offset, n⟩, there, rfl⟩ := Option.map_eq_some_iff.1 found
  exact ⟨rfl, isLatest_refilled there⟩

theorem settled_of_read {m : Node} (found : h.read id = some m) :
    m.edges.reserved = 0 ∧ m.hasPending = false := by
  rw [read] at found
  obtain ⟨⟨offset, n⟩, -, rfl⟩ := Option.map_eq_some_iff.1 found
  exact ⟨Edges.reserved_ofCommitted _, rfl⟩

theorem isLatest_of_require {m : Node} (found : h.require id = .ok m) :
    m.id = id ∧ h.IsLatest m := by
  rw [require] at found
  cases there : h.read id with
  | none =>
    rw [there] at found
    cases found
  | some n =>
    rw [there] at found
    cases found
    exact isLatest_of_read there

theorem isLatest_of_readInto {n : Node} (found : (h.readInto n).1 = true) :
    (h.readInto n).2.id = n.id ∧ h.IsLatest (h.readInto n).2 := by
  rw [readInto] at found ⊢
  cases there : h.latest n.id with
  | none =>
    rw [there] at found
    cases found
  | some last => exact ⟨rfl, isLatest_refilled there⟩

end History

/-! ## Requests -/

/-- What a log can be asked. -/
inductive Request
  | write (n : Node)
  | read (id : NodeId)
  | require (id : NodeId)
  | readInto (n : Node)
  | flush

/-- What a log answers. -/
inductive Reply
  | written (result : Except PagingError Nat)
  | found (result : Except PagingError (Option Node))
  | required (result : Except PagingError Node)
  /-- the node is the given one as it was left -/
  | reloaded (result : Except PagingError Bool) (n : Node)
  | flushed (result : Except PagingError Unit)

namespace History

/-- The reply of a map that holds the latest node of each identity, and its nodes afterwards. -/
def serve (h : History) : Request → Reply × History
  | .write n => (.written (.ok (byteCount h)), n :: h)
  | .read id => (.found (.ok (h.read id)), h)
  | .require id => (.required (h.require id), h)
  | .readInto n => (.reloaded (.ok (h.readInto n).1) (h.readInto n).2, h)
  | .flush => (.flushed (.ok ()), h)

/-- The replies to requests in a row. -/
def serveAll (h : History) : List Request → List Reply × History
  | [] => ([], h)
  | request :: requests =>
    let (reply, h) := h.serve request
    let (replies, h) := h.serveAll requests
    (reply :: replies, h)

theorem mem_serveAll {n : Node} (requests : List Request) :
    n ∈ (serveAll h requests).2 ↔ .write n ∈ requests ∨ n ∈ h := by
  induction requests generalizing h with
  | nil => simp [serveAll]
  | cons request requests ih =>
    rw [serveAll, List.mem_cons]
    refine ih.trans ?_
    cases request with
    | write m =>
      rw [serve, List.mem_cons, Request.write.injEq, or_assoc, or_left_comm]
    | _ => simp [serve]

end History

end BehaviorGraph
