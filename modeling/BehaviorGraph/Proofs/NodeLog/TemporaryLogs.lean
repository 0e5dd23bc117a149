import BehaviorGraph.NodeLog.Temporary
import BehaviorGraph.Proofs.Storage.Naming
import BehaviorGraph.Proofs.Text.Decimal

/-!
# Temporary logs keep apart

A process makes temporary logs on a volume that it shares with others. Each call takes a name of its
own, also if no log can be created. As no file ever gets another name, a call never empties the file
of a log that was made before it.

* `TemporaryNames.name_inj`, `TemporaryNames.nth_inj`: names tell the process and the counter;
* `TemporaryCall`, `TemporaryCall.CreatesAt`: a call, and what it does to the volume;
* `TemporaryCall.Spares`: a call that leaves the log of an earlier one alone;
* `Process`, `Activity`, `Process.runAll`: calls in a row, and what happens between them;
* `Process.Sound`, `Process.call_sound`, `Process.change_sound`: what every step keeps;
* **`Process.runAll_apart`**: the calls of a process, however many fail and whatever else happens.
-/

namespace BehaviorGraph

/-! ## Names -/

namespace TemporaryNames

theorem toList_name (p : UInt32) (c : UInt64) :
    (name p c).toList = "tla2_nodes_".toList ++
      ((toString p.toNat).toList ++ '_' :: ((toString c.toNat).toList ++ ".gn".toList)) := by
  simp only [name, String.toList_append, List.append_assoc]
  rfl

/-- **A temporary name tells the process and the counter.** -/
theorem name_inj {p q : UInt32} {c d : UInt64} : name p c = name q d ↔ p = q ∧ c = d := by
  constructor
  · intro same
    rw [← String.toList_inj, toList_name, toList_name, List.append_cancel_left_eq] at same
    have line (p : UInt32) : '_' ∉ (toString p.toNat).toList := notMem_toString_nat (by decide) _
    obtain ⟨processes, later⟩ := (append_cons_inj (line p) (line q)).1 same
    have counters := List.append_cancel_right later
    exact ⟨UInt32.toNat_inj.1 (Nat.repr_inj.1 (String.toList_inj.1 processes)),
      UInt64.toNat_inj.1 (Nat.repr_inj.1 (String.toList_inj.1 counters))⟩
  · rintro ⟨rfl, rfl⟩
    rfl

variable {t : TemporaryNames} {i j : Nat}

/-- The names that are left when `k` more were taken. -/
def skip (t : TemporaryNames) (k : Nat) : TemporaryNames := { t with counter := t.counter + .ofNat k }

theorem skip_zero (t : TemporaryNames) : t.skip 0 = t := by
  rw [skip, show UInt64.ofNat 0 = 0 from rfl, UInt64.add_zero]

theorem next_skip (t : TemporaryNames) (k : Nat) : (t.skip k).next.2 = t.skip (k + 1) := by
  rw [next, skip, skip, UInt64.ofNat_add, UInt64.add_assoc]
  rfl

/-- The name that is taken after `k` others. -/
def nth (t : TemporaryNames) (k : Nat) : String := (t.skip k).next.1

theorem nth_inj (hi : i < UInt64.size) (hj : j < UInt64.size) (same : t.nth i = t.nth j) : i = j := by
  have counters := (name_inj.1 same).2
  have offsets := (UInt64.add_right_inj t.counter).1 counters
  have numbers := congrArg UInt64.toNat offsets
  rwa [UInt64.toNat_ofNat_of_lt' hi, UInt64.toNat_ofNat_of_lt' hj] at numbers

theorem nodup_nth (t : TemporaryNames) {count : Nat} (few : count ≤ UInt64.size) :
    ((List.range count).map t.nth).Nodup := by
  rw [List.nodup_iff_pairwise_ne, List.pairwise_map]
  refine List.pairwise_lt_range.imp_of_mem ?_
  intro i j hi hj lt same
  have i_lt := Nat.lt_of_lt_of_le (List.mem_range.1 hi) few
  have j_lt := Nat.lt_of_lt_of_le (List.mem_range.1 hj) few
  exact Nat.ne_of_lt lt (nth_inj i_lt j_lt same)

end TemporaryNames

/-! ## Calls -/

/-- A call for a temporary log: the name it took, the volume it met, and what it made. -/
structure TemporaryCall where
  name : String
  before : Volume
  made : Except PagingError (NodeLog × Volume × List Event)

namespace TemporaryCall

/-- The volume after the call. -/
def after (c : TemporaryCall) : Volume :=
  match c.made with
  | .ok (_, v, _) => v
  | .error _ => c.before

/-- The log that was made, if one could be. -/
def log? (c : TemporaryCall) : Option NodeLog :=
  match c.made with
  | .ok (log, _, _) => some log
  | .error _ => none

/-- A call leaves the log of an earlier one alone: it changes no byte of its file, and makes no log
of that file. -/
structure Spares (later earlier : TemporaryCall) : Prop where
  content : ∀ log, earlier.log? = some log →
    later.after.content log.appender.handle.file = later.before.content log.appender.handle.file
  file : ∀ log log', earlier.log? = some log → later.log? = some log' →
    log.appender.handle.file ≠ log'.appender.handle.file

/-- A call makes a log at a location, or it changes nothing. -/
inductive CreatesAt (c : TemporaryCall) (l : Location) : Prop
  | made {log : NodeLog} : c.log? = some log → log.location = l →
    c.before.create l = .ok (log.appender.handle.file, c.after) → CreatesAt c l
  | failed : c.log? = none → c.after = c.before → CreatesAt c l

theorem createsAt {c : TemporaryCall} {l : Location} {settings : Settings}
    (made : c.made = NodeLog.create c.before l settings) : c.CreatesAt l := by
  rw [NodeLog.create] at made
  split at made
  next =>
    exact .failed (by rw [log?, made]) (by rw [after, made])
  next file v created =>
    refine .made (by rw [log?, made]) rfl ?_
    rw [after, made]
    exact created

namespace CreatesAt

variable {c earlier : TemporaryCall} {l : Location} {log : NodeLog} (creates : c.CreatesAt l)

include creates

theorem later (unshared : c.before.Unshared) : c.before.Later c.after ∧ c.after.Unshared := by
  cases creates with
  | made _ _ created => exact ⟨Volume.create_later created, unshared.create created⟩
  | failed _ unchanged =>
    rw [unchanged]
    exact ⟨.of_subset rfl (List.Subset.refl _), unshared⟩

theorem goesBy (unshared : c.before.Unshared) (mine : c.log? = some log) :
    log.location = l ∧ c.after.GoesBy log.appender.handle.file log.location := by
  cases creates with
  | made made located created =>
    obtain rfl := Option.some.inj (made.symm.trans mine)
    rw [located]
    exact ⟨rfl, unshared.goesBy_of_create created⟩
  | failed failed => cases failed.symm.trans mine

/-- A call spares all logs whose files go by other names. -/
theorem spares (known : ∀ log, earlier.log? = some log →
    c.before.GoesBy log.appender.handle.file log.location ∧ l ≠ log.location) :
    c.Spares earlier := by
  cases creates with
  | @made mine made _ created =>
    have ne (log : NodeLog) (theirs : earlier.log? = some log) :
        log.appender.handle.file ≠ mine.appender.handle.file := by
      obtain ⟨goesBy, other⟩ := known log theirs
      exact goesBy.ne_of_create created other
    refine ⟨?_, ?_⟩
    · intro log theirs
      exact Volume.content_create created (ne log theirs)
    · intro log log' theirs mine'
      obtain rfl := Option.some.inj (made.symm.trans mine')
      exact ne log theirs
  | failed failed unchanged =>
    refine ⟨?_, ?_⟩
    · intro log theirs
      rw [unchanged]
    · intro log log' theirs mine
      cases failed.symm.trans mine

end CreatesAt

end TemporaryCall

/-! ## Processes -/

/-- A process that makes temporary logs on a volume, with its calls so far, the latest first. -/
structure Process where
  names : TemporaryNames
  volume : Volume
  calls : List TemporaryCall

/-- What happens next: the process calls for a temporary log, or the volume is changed, be it through
a log or by others. -/
inductive Activity
  | call (systemDirectory : String) (settings : Settings)
  | change (change : Volume.Change)

/-- Whether a temporary log is called for. -/
def Activity.isCall : Activity → Bool
  | call .. => true
  | change _ => false

namespace Process

/-- A process that made no call yet, on a volume without files. -/
def start (names : TemporaryNames) (medium : Medium) (directories : List String) : Process :=
  ⟨names, .empty medium directories, []⟩

/-- The process after a call for a temporary log. -/
def call (p : Process) (systemDirectory : String) (settings : Settings) : Process :=
  let (made, names) := NodeLog.createTemporary p.names p.volume systemDirectory settings
  let c : TemporaryCall := ⟨p.names.next.1, p.volume, made⟩
  ⟨names, c.after, c :: p.calls⟩

/-- The process after an activity. -/
def perform (p : Process) : Activity → Process
  | .call systemDirectory settings => p.call systemDirectory settings
  | .change change => { p with volume := p.volume.changed change }

/-- The process after activities in a row. -/
def runAll (p : Process) : List Activity → Process
  | [] => p
  | activity :: activities => (p.perform activity).runAll activities

/-- The calls of a process took the names from `first` on, its logs go by these names, and no call
touched the log of an earlier one. -/
structure Sound (first : TemporaryNames) (p : Process) : Prop where
  names : p.names = first.skip p.calls.length
  named : p.calls.reverse.map TemporaryCall.name = (List.range p.calls.length).map first.nth
  located : ∀ c ∈ p.calls, ∀ log, c.log? = some log → log.location.name = c.name ∧
    p.volume.GoesBy log.appender.handle.file log.location
  unshared : p.volume.Unshared
  apart : p.calls.Pairwise TemporaryCall.Spares

variable {p : Process} {first : TemporaryNames}

theorem start_sound (names : TemporaryNames) (medium : Medium) (directories : List String) :
    Sound names (start names medium directories) where
  names := names.skip_zero.symm
  named := rfl
  located := by
    intro c there
    cases there
  unshared := Volume.empty_unshared medium directories
  apart := .nil

theorem change_sound (sound : Sound first p) (change : Volume.Change) :
    Sound first { p with volume := p.volume.changed change } := by
  obtain ⟨later, unshared⟩ := Volume.changed_later sound.unshared change
  refine ⟨sound.names, sound.named, ?_, unshared, sound.apart⟩
  intro c there log made
  obtain ⟨name, known⟩ := sound.located c there log made
  exact ⟨name, known.later later⟩

/-- The name that is next was taken by no call so far. -/
theorem Sound.next_ne (sound : Sound first p) (few : p.calls.length < UInt64.size)
    {c : TemporaryCall} (there : c ∈ p.calls) : p.names.next.1 ≠ c.name := by
  have taken : c.name ∈ (List.range p.calls.length).map first.nth := by
    rw [← sound.named]
    exact List.mem_map_of_mem (List.mem_reverse.2 there)
  obtain ⟨k, inside, name⟩ := List.mem_map.1 taken
  rw [← name, sound.names]
  intro same
  have k_lt := List.mem_range.1 inside
  exact Nat.ne_of_gt k_lt (TemporaryNames.nth_inj few (Nat.lt_trans k_lt few) same)

/-- **A call keeps apart from the logs made before it.** -/
theorem call_sound (sound : Sound first p) (few : p.calls.length < UInt64.size)
    (systemDirectory : String) (settings : Settings) :
    Sound first (p.call systemDirectory settings) := by
  -- the name is fresh whether or not the volume lets the call create its file
  let l : Location := ⟨settings.directory systemDirectory, p.names.next.1⟩
  let c : TemporaryCall := ⟨p.names.next.1, p.volume, NodeLog.create p.volume l settings⟩
  change Sound first ⟨p.names.next.2, c.after, c :: p.calls⟩
  have creates : c.CreatesAt l := TemporaryCall.createsAt rfl
  obtain ⟨later, unshared⟩ := creates.later sound.unshared
  refine ⟨?names, ?named, ?located, unshared, List.pairwise_cons.2 ⟨?spares, sound.apart⟩⟩
  case names => rw [sound.names, TemporaryNames.next_skip, List.length_cons]
  case named =>
    rw [List.reverse_cons, List.map_append, sound.named, List.length_cons, List.range_succ,
      List.map_append]
    exact congrArg (fun t : TemporaryNames => _ ++ [t.next.1]) sound.names
  case located =>
    intro call there log made
    rcases List.mem_cons.1 there with rfl | old
    · obtain ⟨located, known⟩ := creates.goesBy sound.unshared made
      exact ⟨congrArg Location.name located, known⟩
    · obtain ⟨name, known⟩ := sound.located call old log made
      exact ⟨name, known.later later⟩
  case spares =>
    intro earlier there
    refine creates.spares ?_
    intro log made
    obtain ⟨name, known⟩ := sound.located earlier there log made
    refine ⟨known, ?_⟩
    intro same
    exact sound.next_ne few there ((congrArg Location.name same).trans name)

theorem runAll_sound (sound : Sound first p) (activities : List Activity)
    (few : p.calls.length + activities.countP Activity.isCall ≤ UInt64.size) :
    Sound first (p.runAll activities) ∧
      (p.runAll activities).calls.length =
        p.calls.length + activities.countP Activity.isCall := by
  induction activities generalizing p with
  | nil => exact ⟨sound, rfl⟩
  | cons activity activities ih =>
    cases activity with
    | change change => exact ih (change_sound sound change) few
    | call systemDirectory settings =>
      have count : (Activity.call systemDirectory settings :: activities).countP Activity.isCall =
          activities.countP Activity.isCall + 1 := List.countP_cons_of_pos rfl
      rw [count] at few ⊢
      have one : (p.call systemDirectory settings).calls.length = p.calls.length + 1 := rfl
      obtain ⟨sound', length⟩ := ih (call_sound sound (by omega) systemDirectory settings) (by omega)
      exact ⟨sound', by rw [runAll, perform, length]; omega⟩

/-- **Temporary logs never get in each other's way.** Within one round of the counter all names
differ, and no call touches the file of an earlier log. -/
theorem runAll_apart (names : TemporaryNames) (medium : Medium) (directories : List String)
    (activities : List Activity) (few : activities.countP Activity.isCall ≤ UInt64.size) :
    let p := (start names medium directories).runAll activities
    p.calls.length = activities.countP Activity.isCall ∧
    (p.calls.map TemporaryCall.name).Nodup ∧
    (∀ c ∈ p.calls, ∀ log, c.log? = some log → log.location.name = c.name) ∧
    p.calls.Pairwise TemporaryCall.Spares ∧
    ∀ process process' counter counter',
      TemporaryNames.name process counter = TemporaryNames.name process' counter' ↔
        process = process' ∧ counter = counter' := by
  intro p
  obtain ⟨sound, length⟩ := runAll_sound (start_sound names medium directories) activities
    (by rwa [start, List.length_nil, Nat.zero_add])
  have length : p.calls.length = activities.countP Activity.isCall :=
    length.trans (Nat.zero_add _)
  refine ⟨length, ?_, ?_, sound.apart, fun _ _ _ _ => TemporaryNames.name_inj⟩
  · have distinct := names.nodup_nth (Nat.le_trans (Nat.le_of_eq length) few)
    rw [← sound.named, List.map_reverse] at distinct
    exact (List.reverse_perm _).nodup_iff.1 distinct
  · intro c there log made
    exact (sound.located c there log made).1

/-- The counter comes round after the first of three calls. The file of its log is then written to,
the second call fails, and the third makes a log. -/
theorem third_apart :
    let activities : List Activity := [.call "/tmp" {}, .change (.rewrite 0 [1, 2]), .call "/gone" {},
      .call "/gone" { spillDirectory := some "/tmp" }]
    let p := (start ⟨7, 0xFFFFFFFFFFFFFFFF⟩ .reliable ["/tmp"]).runAll activities
    activities.countP Activity.isCall ≤ UInt64.size ∧
      p.calls.map TemporaryCall.name =
        ["tla2_nodes_7_1.gn", "tla2_nodes_7_0.gn", "tla2_nodes_7_18446744073709551615.gn"] ∧
      p.calls.map (·.log?.isSome) = [true, false, true] ∧ p.volume.files = #[[1, 2], []] ∧
      (p.calls.map TemporaryCall.name).Nodup ∧ p.calls.Pairwise TemporaryCall.Spares := by
  intro activities p
  have few : activities.countP Activity.isCall ≤ UInt64.size := by decide
  obtain ⟨-, distinct, -, apart, -⟩ :=
    runAll_apart ⟨7, 0xFFFFFFFFFFFFFFFF⟩ .reliable ["/tmp"] activities few
  exact ⟨few, by decide +kernel, by decide +kernel, by decide +kernel, distinct, apart⟩

end Process

end BehaviorGraph
