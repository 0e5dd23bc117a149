import BehaviorGraph.Proofs.NodeLog.Session
import BehaviorGraph.Proofs.Storage.Steadiness

/-!
# Reading along three paths

A node can be brought back as one that may be missing, as one that must be there, or into a node
that is at hand. Whatever the file holds at that moment, the three ways come to the same, and all
that they touch is the write buffer, which they empty, and the reader.

* `NodeLog.shown_idle`, `NodeLog.openReader_idle`: on a steady medium earlier calls are not seen;
* `NodeLog.Passed`, `NodeLog.Retains`, `Session.serve_passed`: what every request but a write keeps;
* **`NodeLog.Passed.result_sourceAt`**: on a steady medium no such request changes what is found;
* `NodeLog.answers`, `NodeLog.answers_of_none`, `NodeLog.answers_of_some`: the three answers;
* `NodeLog.ReadsAgree`, **`NodeLog.reads_agree`**: they agree, and depend on no earlier reading.
-/

namespace BehaviorGraph

namespace NodeLog

variable {log log' : NodeLog} {v v' w : Volume}

/-! ## Calls that are not seen -/

theorem shown_idle (steady : v.medium.Steady) (idle : v.Idle w) (file offset : Nat) :
    shown w file offset = shown v file offset := by
  have called : v.called.medium = v.medium := rfl
  have called' : w.called.medium = v.medium := idle.same.medium
  simp only [shown, Volume.sourceAt, Volume.content_called, idle.content, called, called',
    idle.same.medium, steady.seek v.calls w.calls, steady.breaksOff v.called.calls w.called.calls]

theorem idle_openReader {result : Except Fault Handle} (opened : log.openReader v = (result, w)) :
    v.Idle w := by
  rw [openReader] at opened
  split at opened
  · cases opened
    exact .refl v
  · rw [Volume.openRead] at opened
    cases named : v.fileAt log.location with
    | error fault =>
      rw [named] at opened
      cases opened
      exact .refl v
    | ok file =>
      rw [named] at opened
      cases answer : v.medium.openRead v.calls <;> rw [answer] at opened <;> cases opened <;>
        exact v.idle_called

theorem openReader_idle {result : Except Fault Handle} (steady : v.medium.Steady) (idle : v.Idle w)
    (opened : log.openReader v = (result, v')) : ∃ w', log.openReader w = (result, w') := by
  refine ⟨(log.openReader w).2, Prod.ext ?_ rfl⟩
  rw [← congrArg Prod.fst opened]
  simp only [openReader, Volume.openRead, idle.same.fileAt, idle.same.medium,
    steady.openRead v.calls w.calls]
  cases log.reader with
  | some r => rfl
  | none =>
    cases v.fileAt log.location with
    | error fault => rfl
    | ok file => cases v.medium.openRead v.calls <;> rfl

/-! ## What requests other than writes keep -/

/-- The state after a request that is no write. -/
inductive Passed (log : NodeLog) (v : Volume) : NodeLog → Volume → Prop
  | untouched : Passed log v log v
  | emptied {result : Except Fault Unit} {a : Appender} {w : Volume} :
    log.appender.flush v = (result, a, w) → Passed log v { log with appender := a } w
  | unopened {fault : Fault} {a : Appender} {w u : Volume} :
    log.appender.flush v = (.ok (), a, w) → log.openReader w = (.error fault, u) →
    Passed log v { log with appender := a } u
  | opened {a : Appender} {w u u' : Volume} {r r' : Handle} :
    log.appender.flush v = (.ok (), a, w) → log.openReader w = (.ok r, u) → r'.file = r.file →
    u.Idle u' → Passed log v { log with appender := a, reader := some r' } u'

theorem sourceAt_passed (log : NodeLog) (v : Volume) (offset : Nat) :
    log.Passed v (log.sourceAt v offset).log (log.sourceAt v offset).volume ∧
      (log.sourceAt v offset).events = [] := by
  rcases flushed : log.appender.flush v with ⟨fault | _, a, w⟩
  · rw [sourceAt_unflushed log offset flushed]
    exact ⟨.emptied flushed, rfl⟩
  rcases opened : log.openReader w with ⟨fault | r, u⟩
  · rw [sourceAt_unopened log offset flushed opened]
    exact ⟨.unopened flushed opened, rfl⟩
  · obtain ⟨r', u', file, idle, outcome⟩ := sourceAt_opened log offset flushed opened
    rw [outcome]
    exact ⟨.opened flushed opened file idle, rfl⟩

/-- Everything but the buffer and the reader is the same. -/
structure Retains (log log' : NodeLog) : Prop extends SameIndex log log' where
  location : log'.location = log.location
  poisoned : log'.poisoned = log.poisoned

theorem Retains.refl (log : NodeLog) : log.Retains log := ⟨⟨rfl, rfl⟩, rfl, rfl⟩

theorem Retains.trans {log'' : NodeLog} (first : log.Retains log') (second : log'.Retains log'') :
    log.Retains log'' :=
  ⟨⟨second.offsets.trans first.offsets, second.bytesWritten.trans first.bytesWritten⟩,
    second.location.trans first.location, second.poisoned.trans first.poisoned⟩

namespace Passed

theorem retains (passed : log.Passed v log' v') : log.Retains log' := by
  cases passed <;> exact ⟨⟨rfl, rfl⟩, rfl, rfl⟩

theorem sameFiles (passed : log.Passed v log' v') : v.SameFiles v' := by
  cases passed with
  | untouched => exact .refl v
  | emptied flushed => exact Appender.flush_sameFiles flushed
  | unopened flushed opened =>
    exact (Appender.flush_sameFiles flushed).trans (idle_openReader opened).same
  | opened flushed opened _ idle =>
    exact ((Appender.flush_sameFiles flushed).trans (idle_openReader opened).same).trans idle.same

/-- **On a steady medium no request but a write changes what is found at an offset.** -/
theorem result_sourceAt (steady : v.medium.Steady) (passed : log.Passed v log' v')
    (offset : Nat) : (log'.sourceAt v' offset).result = (log.sourceAt v offset).result := by
  cases passed with
  | untouched => rfl
  | @emptied result a _ flushed =>
    rcases result with fault | _
    · obtain ⟨w, again, -⟩ := Appender.flush_again steady flushed
      rw [sourceAt_unflushed log offset flushed,
        sourceAt_unflushed { log with appender := a } offset again]
    · simp only [sourceAt, flushed, Appender.flush_emptied flushed v']
  | @unopened fault a w _ flushed opened =>
    have steady' : w.medium.Steady := (Appender.flush_sameFiles flushed).medium ▸ steady
    have again := Appender.flush_emptied flushed v'
    obtain ⟨u, opened'⟩ := openReader_idle steady' (idle_openReader opened) opened
    rw [sourceAt_unopened log offset flushed opened,
      sourceAt_unopened { log with appender := a } offset again opened']
  | @opened a w u _ r r' flushed opened file idle =>
    have steady' : w.medium.Steady := (Appender.flush_sameFiles flushed).medium ▸ steady
    have again := Appender.flush_emptied flushed v'
    obtain ⟨_, _, -, -, outcome⟩ := sourceAt_opened log offset flushed opened
    obtain ⟨_, _, -, -, outcome'⟩ := sourceAt_opened
      { log with appender := a, reader := some r' } offset again rfl
    rw [outcome, outcome', file]
    exact shown_idle ((idle_openReader opened).same.medium ▸ steady') idle _ _

theorem idle_flush (passed : log.Passed v log' v') : v.Idle v' ∨ (log.flush v).volume.Idle v' := by
  have volume {result : Except Fault Unit} {a : Appender} {w : Volume}
      (flushed : log.appender.flush v = (result, a, w)) : (log.flush v).volume = w := by
    rw [flush, flushed]
    cases result <;> rfl
  cases passed with
  | untouched => exact .inl (.refl v)
  | emptied flushed => exact .inr (volume flushed ▸ .refl _)
  | unopened flushed opened => exact .inr (volume flushed ▸ idle_openReader opened)
  | opened flushed opened _ idle =>
    exact .inr (volume flushed ▸ (idle_openReader opened).trans idle)

end Passed

theorem readInto_state (log : NodeLog) (v : Volume) (m : Node) :
    (log.readInto v m).1.log = (log.read v m.id).log ∧
      (log.readInto v m).1.volume = (log.read v m.id).volume ∧
      (log.readInto v m).1.events = (log.read v m.id).events := by
  rw [readInto, read]
  cases log.offsetOf m.id with
  | none => exact ⟨rfl, rfl, rfl⟩
  | some offset =>
    dsimp only
    cases (log.sourceAt v offset).result <;> exact ⟨rfl, rfl, rfl⟩

theorem read_passed (log : NodeLog) (v : Volume) (id : NodeId) :
    log.Passed v (log.read v id).log (log.read v id).volume ∧ (log.read v id).events = [] := by
  rw [read]
  cases log.offsetOf id with
  | none => exact ⟨.untouched, rfl⟩
  | some offset => exact sourceAt_passed log v offset

theorem readInto_passed (log : NodeLog) (v : Volume) (m : Node) :
    log.Passed v (log.readInto v m).1.log (log.readInto v m).1.volume := by
  obtain ⟨left, right, -⟩ := log.readInto_state v m
  rw [left, right]
  exact (log.read_passed v m.id).1

theorem flush_passed (log : NodeLog) (v : Volume) :
    log.Passed v (log.flush v).log (log.flush v).volume := by
  rw [flush]
  rcases flushed : log.appender.flush v with ⟨_ | _, a, w⟩ <;> exact .emptied flushed

end NodeLog

theorem Request.write_or_not (request : Request) :
    (∃ n, request = .write n) ∨ ∀ n, request ≠ .write n := by
  by_cases writing : ∃ n, request = .write n
  · exact .inl writing
  · exact .inr (not_exists.1 writing)

namespace Session

variable {s : Session}

theorem serve_passed {request : Request} (reading : ∀ n, request ≠ .write n) :
    s.log.Passed s.volume (s.serve request).2.log (s.serve request).2.volume := by
  cases request with
  | write n => exact absurd rfl (reading n)
  | read id => exact (s.log.read_passed s.volume id).1
  | require id => exact (s.log.read_passed s.volume id).1
  | readInto n => exact s.log.readInto_passed s.volume n
  | flush => exact s.log.flush_passed s.volume

/-- After any list of requests that are no writes the same is found at every offset. -/
theorem serveAll_passed (steady : s.volume.medium.Steady) (requests : List Request)
    (reading : ∀ n, .write n ∉ requests) :
    s.log.Retains (s.serveAll requests).2.log ∧ ∀ offset,
      ((s.serveAll requests).2.log.sourceAt (s.serveAll requests).2.volume offset).result =
        (s.log.sourceAt s.volume offset).result := by
  induction requests generalizing s with
  | nil => exact ⟨.refl s.log, fun _ => rfl⟩
  | cons request requests ih =>
    have passed := serve_passed (s := s) fun n same => reading n (same ▸ List.mem_cons_self)
    obtain ⟨retains, found⟩ := ih (s := (s.serve request).2) (passed.sameFiles.medium ▸ steady)
      fun n there => reading n (List.mem_cons_of_mem _ there)
    exact ⟨passed.retains.trans retains, fun offset =>
      (found offset).trans (passed.result_sourceAt steady offset)⟩

end Session

/-! ## The three answers -/

namespace NodeLog

/-- What the three ways to bring a node back answer, and the node that was at hand. -/
structure Answers where
  read : Except PagingError (Option Node)
  require : Except PagingError Node
  readInto : Except PagingError Bool
  node : Node

namespace Answers

/-- No node was written under the identity of `m`. -/
def missing (m : Node) : Answers := ⟨.ok none, .error (.unknownNode m.id), .ok false, m⟩

def failed (m : Node) (e : PagingError) : Answers := ⟨.error e, .error e, .error e, m⟩

def found (n : Node) : Answers := ⟨.ok (some n), .ok n, .ok true, n⟩

end Answers

variable {log log' : NodeLog} {v v' : Volume} {m : Node}

/-- The answers of a log about the identity of `m`, each asked for in the same state. -/
def answers (log : NodeLog) (v : Volume) (m : Node) : Answers where
  read := (log.read v m.id).result
  require := (log.require v m.id).result
  readInto := (log.readInto v m).1.result
  node := (log.readInto v m).2

theorem answers_of_none (missing : log.offsetOf m.id = none) : log.answers v m = .missing m := by
  simp only [answers, read, require, readInto, missing]
  rfl

theorem answers_of_some {offset : Nat} (known : log.offsetOf m.id = some offset) :
    (∃ e, log.answers v m = .failed m e) ∨ ∃ n, n.id = m.id ∧ log.answers v m = .found n := by
  simp only [answers, read, require, readInto, known]
  cases (log.sourceAt v offset).result with
  | error e => exact .inl ⟨e, rfl⟩
  | ok source =>
    rcases Node.readFrom_uniform source with ⟨e, failed⟩ | ⟨edges, truths, left, ok⟩
    · refine .inl ⟨e, ?_⟩
      simp only [Node.readNew, Node.reload, bind, Except.bind, failed]
      rfl
    · refine .inr ⟨⟨m.id, edges, truths⟩, rfl, ?_⟩
      simp only [Node.readNew, Node.reload, bind, Except.bind, ok]
      rfl

/-- The answers depend on the index and on what is found. -/
theorem answers_congr (offsets : log'.offsets = log.offsets)
    (same : ∀ offset, (log'.sourceAt v' offset).result = (log.sourceAt v offset).result)
    (m : Node) : log'.answers v' m = log.answers v m := by
  simp only [answers, read, require, readInto, offsetOf, offsets]
  cases log.offsets[m.id]? with
  | none => rfl
  | some offset =>
    simp only [same]
    cases (log.sourceAt v offset).result <;> rfl

theorem answers_reader (log : NodeLog) (v : Volume) (m : Node) {r r' : Handle}
    (file : r'.file = r.file) :
    answers { log with reader := some r' } v m = answers { log with reader := some r } v m := by
  refine answers_congr ?_ (fun offset => ?_) m
  · rfl
  rcases flushed : log.appender.flush v with ⟨fault | _, a, w⟩
  · rw [sourceAt_unflushed { log with reader := some r' } offset flushed,
      sourceAt_unflushed { log with reader := some r } offset flushed]
  · obtain ⟨_, _, -, -, outcome⟩ :=
      sourceAt_opened { log with reader := some r } offset flushed rfl
    obtain ⟨_, _, -, -, outcome'⟩ :=
      sourceAt_opened { log with reader := some r' } offset flushed rfl
    rw [outcome, outcome', file]

/-- On a steady medium on which files can be opened it makes no difference when the reader is. -/
theorem answers_unopened (log : NodeLog) (m : Node) {r : Handle} (steady : v.medium.Steady)
    (opens : v.medium.openRead v.calls = .ok ()) (named : v.fileAt log.location = .ok r.file) :
    answers { log with reader := none } v m = answers { log with reader := some r } v m := by
  refine answers_congr ?_ (fun offset => ?_) m
  · rfl
  rcases flushed : log.appender.flush v with ⟨fault | _, a, w⟩
  · rw [sourceAt_unflushed { log with reader := none } offset flushed,
      sourceAt_unflushed { log with reader := some r } offset flushed]
  · have same := Appender.flush_sameFiles flushed
    have opened : openReader { log with reader := none } w = (.ok ⟨r.file, 0⟩, w.called) := by
      simp only [openReader, Volume.openRead, same.fileAt, named, same.medium,
        steady.openRead v.calls w.calls, opens]
      rfl
    obtain ⟨_, _, -, -, outcome⟩ :=
      sourceAt_opened { log with reader := none } offset flushed opened
    obtain ⟨_, _, -, -, outcome'⟩ :=
      sourceAt_opened { log with reader := some r } offset flushed rfl
    rw [outcome, outcome']
    exact shown_idle (same.medium ▸ steady) w.idle_called _ _

/-- The three ways to bring a node back agree and touch nothing else. -/
structure ReadsAgree (log : NodeLog) (v : Volume) (m : Node) : Prop where
  missing : log.contains m.id = false → log.answers v m = .missing m
  /-- all three fail in the same way and leave `m` as it is, or come to the same node -/
  present : log.contains m.id = true →
    (∃ e, log.answers v m = .failed m e) ∨ ∃ n, n.id = m.id ∧ log.answers v m = .found n
  /-- all three leave the same log and the same volume -/
  together : let left := (log.read v m.id).log
    let right := (log.read v m.id).volume
    (log.require v m.id).log = left ∧ (log.require v m.id).volume = right ∧
      (log.readInto v m).1.log = left ∧ (log.readInto v m).1.volume = right
  queries : let left := (log.read v m.id).log
    left.size = log.size ∧ left.keys = log.keys ∧ (∀ id, left.contains id = log.contains id) ∧
      (∀ id, left.offsetOf id = log.offsetOf id) ∧ left.bytesWritten = log.bytesWritten ∧
      left.poisoned = log.poisoned
  /-- the files are as they were or as emptying the buffer leaves them -/
  files : let left := (log.read v m.id).volume
    v.Idle left ∨ (log.flush v).volume.Idle left
  /-- nothing is reported -/
  events : (log.read v m.id).events = [] ∧ (log.require v m.id).events = [] ∧
    (log.readInto v m).1.events = []
  /-- where in the file the reader was left is not seen -/
  reader : ∀ r r' : Handle, r'.file = r.file →
    answers { log with reader := some r' } v m = answers { log with reader := some r } v m
  /-- nor is whether it was opened before, unless that fails -/
  unopened : v.medium.Steady → v.medium.openRead v.calls = .ok () →
    ∀ r : Handle, v.fileAt log.location = .ok r.file →
      answers { log with reader := none } v m = answers { log with reader := some r } v m
  /-- requests that are no writes, with success or not, change no later answer -/
  earlier : v.medium.Steady → ∀ requests : List Request, (∀ n, .write n ∉ requests) →
    let s := ((Session.start log v).serveAll requests).2
    s.log.answers s.volume m = log.answers v m

theorem Retains.queries (retains : log.Retains log') :
    log'.size = log.size ∧ log'.keys = log.keys ∧ (∀ id, log'.contains id = log.contains id) ∧
      (∀ id, log'.offsetOf id = log.offsetOf id) ∧ log'.bytesWritten = log.bytesWritten ∧
      log'.poisoned = log.poisoned :=
  ⟨congrArg Std.TreeMap.size retains.offsets, congrArg Std.TreeMap.keys retains.offsets,
    fun id => congrArg (·.contains id) retains.offsets,
    fun id => congrArg (·[id]?) retains.offsets, retains.bytesWritten, retains.poisoned⟩

/-- **The three ways to bring a node back agree.** They change no answer to a query, and no earlier
reading changes what is found. -/
theorem reads_agree (log : NodeLog) (v : Volume) (m : Node) : log.ReadsAgree v m where
  missing unknown := by
    refine answers_of_none ?_
    rw [contains, Std.TreeMap.contains_eq_isSome_getElem?] at unknown
    exact Option.not_isSome_iff_eq_none.1 (Bool.eq_false_iff.1 unknown)
  present known := by
    rw [contains, Std.TreeMap.contains_eq_isSome_getElem?] at known
    obtain ⟨offset, known⟩ := Option.isSome_iff_exists.1 known
    exact answers_of_some known
  together := ⟨rfl, rfl, (log.readInto_state v m).1, (log.readInto_state v m).2.1⟩
  queries := (log.read_passed v m.id).1.retains.queries
  files := (log.read_passed v m.id).1.idle_flush
  events := by
    have silent := (log.read_passed v m.id).2
    exact ⟨silent, silent, (log.readInto_state v m).2.2.trans silent⟩
  reader _ _ file := log.answers_reader v m file
  unopened steady opens _ named := log.answers_unopened m steady opens named
  earlier steady requests reading := by
    obtain ⟨retains, found⟩ :=
      Session.serveAll_passed (s := .start log v) steady requests reading
    exact answers_congr retains.offsets found m

/-- The file is cut within the only record after that was read, on a steady medium. -/
theorem cut_reads_agree :
    ∃ log w events, Session.createAlone (.limited 50) 8 = .ok (log, w, events) ∧
      let s := ((Session.start log w).serveAll [.write .sample, .read Node.sample.id]).2
      let v := (s.volume.resizeFile s.log.location 10).2
      s.log.ReadsAgree v .sample ∧ v.medium.Steady ∧
        s.log.answers v .sample = .failed .sample (.fault .endOfInput) := by
  have created : Session.createAlone (.limited 50) 8 = .ok (_, _, _) := rfl
  refine ⟨_, _, _, created, ?_⟩
  intro s v
  have agree := reads_agree s.log v .sample
  have medium : v.medium = .limited 50 := by with_unfolding_all rfl
  have known : s.log.contains Node.sample.id = true := by decide +kernel
  have short : (s.log.readInto v .sample).1.result = .error (.fault .endOfInput) := by
    decide +kernel
  refine ⟨agree, medium ▸ Medium.limited_steady 50, ?_⟩
  rcases agree.present known with ⟨e, failed⟩ | ⟨n, -, found⟩
  · cases (congrArg Answers.readInto failed).symm.trans short
    exact failed
  · cases (congrArg Answers.readInto found).symm.trans short

end NodeLog

end BehaviorGraph
