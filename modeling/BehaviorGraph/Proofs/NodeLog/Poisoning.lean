import BehaviorGraph.Proofs.NodeLog.ReadPaths

/-!
# Poisoned logs

One thing alone poisons a log: a record cannot be appended in full, and what was appended of it
cannot be cut off again. The log warns of it then and never warns otherwise, and from then on it
refuses every write.

* `Appender.CutFails`, `Appender.cutBack_error_iff`: the steps at which cutting back can fail;
* `NodeLog.Breaks`, `NodeLog.write_of_breaks`, `NodeLog.write_of_not_breaks`: a single write;
* `Session.events`, `Event.warnings`, `Session.Breaks`: what is reported;
* `Session.serve_of_breaks`, `Session.serve_of_not_breaks`, `Session.serve_of_poisoned`: requests;
* `Session.Poisoning`, **`Session.serveAll_poisoning`**: every list of requests.
-/

namespace BehaviorGraph

/-! ## Cutting back -/

/-- Cutting back fails, as the buffer cannot be emptied, the length cannot be set, or the cursor
cannot be moved. -/
inductive Appender.CutFails (a : Appender) (v : Volume) (length : Nat) (cause : Fault) : Prop
  | flush {a' : Appender} {w : Volume} : a.flush v = (.error cause, a', w) →
    CutFails a v length cause
  | resize {a' : Appender} {w u : Volume} : a.flush v = (.ok (), a', w) →
    w.resize a'.handle.file length = (.error cause, u) → CutFails a v length cause
  | seek {a' : Appender} {w u u' : Volume} : a.flush v = (.ok (), a', w) →
    w.resize a'.handle.file length = (.ok (), u) → u.seek length = (.error cause, u') →
    CutFails a v length cause

theorem Appender.cutBack_error_iff {a : Appender} {v : Volume} {length : Nat} {cause : Fault} :
    (a.cutBack v length).1 = .error cause ↔ a.CutFails v length cause := by
  constructor
  · intro failed
    rw [cutBack] at failed
    rcases flushed : a.flush v with ⟨fault | _, a', w⟩ <;> rw [flushed] at failed
    · cases failed
      exact .flush flushed
    rcases resized : w.resize a'.handle.file length with ⟨fault | _, u⟩ <;>
      simp only [Handle.truncateTo, resized] at failed
    · cases failed
      exact .resize flushed resized
    rcases sought : u.seek length with ⟨fault | _, u'⟩ <;>
      simp only [Handle.seek, sought] at failed
    · cases failed
      exact .seek flushed resized sought
    · cases failed
  · rintro (flushed | ⟨flushed, resized⟩ | ⟨flushed, resized, sought⟩)
    · simp only [cutBack, flushed]
    · simp only [cutBack, flushed, Handle.truncateTo, resized]
    · simp only [cutBack, flushed, Handle.truncateTo, resized, Handle.seek, sought]

/-! ## Writing -/

namespace NodeLog

variable {log : NodeLog} {v : Volume} {n : Node} {cause : Fault}

/-- The record of a node is not appended, and what was appended of it is not cut off again. -/
structure Breaks (log : NodeLog) (v : Volume) (n : Node) (cause : Fault) : Prop where
  sound : log.poisoned = false
  torn : ∃ bytes fault a w, n.encode = .ok bytes ∧
    log.appender.put v bytes = (.error fault, a, w) ∧ a.CutFails w log.bytesWritten cause

theorem write_of_poisoned (poisoned : log.poisoned = true) (v : Volume) (n : Node) :
    log.write v n = ⟨.error (.poisoned log.location.path), log, v, []⟩ := by
  rw [write, if_pos poisoned]

theorem write_of_breaks (broken : log.Breaks v n cause) :
    ∃ fault a w, log.write v n = ⟨.error (.fault fault), { log with appender := a, poisoned := true },
      w, [.rollbackFailed log.bytesWritten cause]⟩ := by
  obtain ⟨sound, bytes, fault, a, w, encoded, put, failed⟩ := broken
  have answer := Appender.cutBack_error_iff.2 failed
  rcases cut : a.cutBack w log.bytesWritten with ⟨result, a', w'⟩
  rw [cut] at answer
  cases answer
  refine ⟨fault, a', w', ?_⟩
  simp only [write, sound, encoded, put, rollBack, cut]
  rfl

/-- A write that breaks nothing reports nothing. -/
theorem write_of_not_breaks (whole : ∀ cause, ¬ log.Breaks v n cause) :
    (log.write v n).log.poisoned = log.poisoned ∧ (log.write v n).events = [] := by
  rw [write]
  by_cases poisoned : log.poisoned = true
  · rw [if_pos poisoned]
    exact ⟨rfl, rfl⟩
  rw [if_neg poisoned]
  cases encoded : n.encode with
  | error e => exact ⟨rfl, rfl⟩
  | ok bytes =>
    dsimp only
    rcases put : log.appender.put v bytes with ⟨fault | _, a, w⟩
    · simp only [rollBack]
      rcases cut : a.cutBack w log.bytesWritten with ⟨cause | _, a', w'⟩
      · have failed := Appender.cutBack_error_iff.1 (congrArg Prod.fst cut)
        exact absurd ⟨Bool.eq_false_iff.2 poisoned, bytes, fault, a, w, encoded, put, failed⟩
          (whole cause)
      · exact ⟨rfl, rfl⟩
    · exact ⟨rfl, rfl⟩

end NodeLog

/-! ## Requests -/

/-- The events that ask for attention. -/
def Event.warnings (events : List Event) : List Event := events.filter (·.severity = .warning)

theorem Event.warnings_append (events later : List Event) :
    warnings (events ++ later) = warnings events ++ warnings later :=
  List.filter_append events later

namespace Session

variable {s : Session} {request : Request} {cause : Fault}

/-- What is reported while a request is served. -/
def events (s : Session) : Request → List Event
  | .write n => (s.log.write s.volume n).events
  | .read id => (s.log.read s.volume id).events
  | .require id => (s.log.require s.volume id).events
  | .readInto n => (s.log.readInto s.volume n).1.events
  | .flush => (s.log.flush s.volume).events

/-- What is reported while requests in a row are served. -/
def eventsAll (s : Session) : List Request → List Event
  | [] => []
  | request :: requests => s.events request ++ (s.serve request).2.eventsAll requests

/-- The request is a write that breaks the log. -/
def Breaks (s : Session) (request : Request) (cause : Fault) : Prop :=
  ∃ n, request = .write n ∧ s.log.Breaks s.volume n cause

theorem Breaks.sound (broken : s.Breaks request cause) : s.log.poisoned = false := by
  obtain ⟨n, -, broken⟩ := broken
  exact broken.sound

theorem serve_of_breaks (broken : s.Breaks request cause) :
    (s.serve request).2.log.poisoned = true ∧
      (s.serve request).2.log.bytesWritten = s.log.bytesWritten ∧
      s.events request = [.rollbackFailed s.log.bytesWritten cause] := by
  obtain ⟨n, rfl, broken⟩ := broken
  obtain ⟨fault, a, w, outcome⟩ := NodeLog.write_of_breaks broken
  simp only [serve, events, outcome, and_self]

theorem warnings_of_not_write (reading : ∀ n, request ≠ .write n) :
    Event.warnings (s.events request) = [] := by
  have silent {events : List Event} (none : events = []) : Event.warnings events = [] :=
    congrArg Event.warnings none
  cases request with
  | write n => exact absurd rfl (reading n)
  | read id => exact silent (s.log.read_passed s.volume id).2
  | require id => exact silent (s.log.read_passed s.volume id).2
  | readInto n =>
    have same := (s.log.readInto_state s.volume n).2.2
    exact silent (same.trans (s.log.read_passed s.volume n.id).2)
  | flush =>
    rw [events, NodeLog.flush]
    rcases s.log.appender.flush s.volume with ⟨_ | _, _, _⟩ <;> rfl

/-- Unless it breaks the log, a request leaves it as sound as it was and warns of nothing. -/
theorem serve_of_not_breaks (whole : ∀ cause, ¬ s.Breaks request cause) :
    (s.serve request).2.log.poisoned = s.log.poisoned ∧ Event.warnings (s.events request) = [] := by
  rcases request.write_or_not with ⟨n, rfl⟩ | reading
  · obtain ⟨same, silent⟩ := NodeLog.write_of_not_breaks fun cause broken =>
      whole cause ⟨n, rfl, broken⟩
    refine ⟨same, ?_⟩
    rw [events, silent]
    rfl
  · exact ⟨(serve_passed reading).retains.poisoned, warnings_of_not_write reading⟩

theorem serve_of_poisoned (poisoned : s.log.poisoned = true) (request : Request) :
    (s.serve request).2.log.poisoned = true ∧
      (s.serve request).2.log.bytesWritten = s.log.bytesWritten ∧
      Event.warnings (s.events request) = [] := by
  have whole : ∀ cause, ¬ s.Breaks request cause := fun cause broken => by
    cases poisoned.symm.trans broken.sound
  obtain ⟨same, silent⟩ := serve_of_not_breaks whole
  refine ⟨same.trans poisoned, ?_, silent⟩
  rcases request.write_or_not with ⟨n, rfl⟩ | reading
  · simp only [serve, NodeLog.write_of_poisoned poisoned]
  · exact (serve_passed reading).retains.bytesWritten

/-! ## Lists of requests -/

theorem serveAll_append (s : Session) (before later : List Request) :
    (s.serveAll (before ++ later)).2 = ((s.serveAll before).2.serveAll later).2 := by
  induction before generalizing s with
  | nil => rfl
  | cons request before ih => exact ih (s.serve request).2

theorem warnings_eventsAll_append (s : Session) (before later : List Request) :
    Event.warnings (s.eventsAll (before ++ later)) =
      Event.warnings (s.eventsAll before) ++
        Event.warnings ((s.serveAll before).2.eventsAll later) := by
  induction before generalizing s with
  | nil => rfl
  | cons request before ih =>
    simp only [List.cons_append, eventsAll, serveAll, Event.warnings_append, ih, List.append_assoc]

theorem serveAll_of_poisoned (poisoned : s.log.poisoned = true) (requests : List Request) :
    (s.serveAll requests).2.log.poisoned = true ∧
      (s.serveAll requests).2.log.bytesWritten = s.log.bytesWritten ∧
      Event.warnings (s.eventsAll requests) = [] := by
  induction requests generalizing s with
  | nil => exact ⟨poisoned, rfl, rfl⟩
  | cons request requests ih =>
    obtain ⟨first, bytesWritten, silent⟩ := serve_of_poisoned poisoned request
    obtain ⟨last, bytesWritten', silent'⟩ := ih first
    refine ⟨last, bytesWritten'.trans bytesWritten, ?_⟩
    rw [eventsAll, Event.warnings_append, silent, silent', List.append_nil]

/-- A log that is still sound was never broken and never warned. -/
theorem warnings_of_sound {requests : List Request}
    (sound : (s.serveAll requests).2.log.poisoned = false) :
    Event.warnings (s.eventsAll requests) = [] := by
  induction requests generalizing s with
  | nil => rfl
  | cons request requests ih =>
    have whole : ∀ cause, ¬ s.Breaks request cause := fun cause broken => by
      have poisoned := (serveAll_of_poisoned (serve_of_breaks broken).1 requests).1
      cases sound.symm.trans poisoned
    rw [eventsAll, Event.warnings_append, (serve_of_not_breaks whole).2, List.nil_append]
    exact ih sound

/-- A log that is poisoned in the end was broken by one of the requests. -/
theorem exists_breaks {requests : List Request} (sound : s.log.poisoned = false)
    (poisoned : (s.serveAll requests).2.log.poisoned = true) :
    ∃ before request later cause, requests = before ++ request :: later ∧
      (s.serveAll before).2.Breaks request cause := by
  induction requests generalizing s with
  | nil => cases sound.symm.trans poisoned
  | cons request requests ih =>
    by_cases broken : ∃ cause, s.Breaks request cause
    · obtain ⟨cause, broken⟩ := broken
      exact ⟨[], request, requests, cause, rfl, broken⟩
    · have same := (serve_of_not_breaks (not_exists.1 broken)).1
      obtain ⟨before, other, later, cause, split, broken⟩ := ih (same.trans sound) poisoned
      exact ⟨request :: before, other, later, cause, congrArg (request :: ·) split, broken⟩

theorem serveAll_of_breaks {before : List Request}
    (broken : (s.serveAll before).2.Breaks request cause) (later : List Request) :
    let t := (s.serveAll (before ++ request :: later)).2
    t.log.poisoned = true ∧ t.log.bytesWritten = (s.serveAll before).2.log.bytesWritten ∧
      Event.warnings (s.eventsAll (before ++ request :: later)) =
        [.rollbackFailed (s.serveAll before).2.log.bytesWritten cause] := by
  intro t
  obtain ⟨poisoned, bytesWritten, reported⟩ := serve_of_breaks broken
  obtain ⟨poisoned', bytesWritten', silent⟩ := serveAll_of_poisoned poisoned later
  have split : t = (((s.serveAll before).2.serve request).2.serveAll later).2 :=
    s.serveAll_append before (request :: later)
  rw [split]
  refine ⟨poisoned', bytesWritten'.trans bytesWritten, ?_⟩
  rw [warnings_eventsAll_append, warnings_of_sound broken.sound, eventsAll, reported]
  exact congrArg (Event.rollbackFailed _ _ :: ·) silent

/-- What poisons a log while it is asked requests in a row, and what comes of that. -/
structure Poisoning (s : Session) (requests : List Request) : Prop where
  /-- the next request leaves a poisoned log poisoned, and it poisons one exactly if it breaks it -/
  next : let t := (s.serveAll requests).2
    ∀ request, (t.serve request).2.log.poisoned = true ↔
      t.log.poisoned = true ∨ ∃ cause, t.Breaks request cause
  /-- a write that breaks the log warns, once, of the offset that the record would have had -/
  warns : let t := (s.serveAll requests).2
    ∀ request cause, t.Breaks request cause →
      t.events request = [.rollbackFailed t.log.bytesWritten cause] ∧
        (t.serve request).2.log.bytesWritten = t.log.bytesWritten
  /-- no other request warns -/
  silent : let t := (s.serveAll requests).2
    ∀ request, (∀ cause, ¬ t.Breaks request cause) → Event.warnings (t.events request) = []
  poisoned_iff : (s.serveAll requests).2.log.poisoned = true ↔
    ∃ before request later cause, requests = before ++ request :: later ∧
      (s.serveAll before).2.Breaks request cause
  /-- all requests together warn once, of the offset where the records end -/
  warned : ∀ before request later cause, requests = before ++ request :: later →
    (s.serveAll before).2.Breaks request cause →
      Event.warnings (s.eventsAll requests) =
        [.rollbackFailed (s.serveAll requests).2.log.bytesWritten cause]
  unwarned : (s.serveAll requests).2.log.poisoned = false →
    Event.warnings (s.eventsAll requests) = []
  /-- a poisoned log stays so and refuses every write, by which nothing at all is changed -/
  forever : (s.serveAll requests).2.log.poisoned = true → ∀ later,
    let t := ((s.serveAll requests).2.serveAll later).2
    t.log.poisoned = true ∧
      ∀ n, t.log.write t.volume n = ⟨.error (.poisoned t.log.location.path), t.log, t.volume, []⟩

theorem poisoning (sound : s.log.poisoned = false) (requests : List Request) :
    s.Poisoning requests where
  next := by
    intro t request
    constructor
    · intro poisoned
      by_cases broken : ∃ cause, t.Breaks request cause
      · exact .inr broken
      · exact .inl ((serve_of_not_breaks (not_exists.1 broken)).1.symm.trans poisoned)
    · rintro (poisoned | ⟨cause, broken⟩)
      · exact (serve_of_poisoned poisoned request).1
      · exact (serve_of_breaks broken).1
  warns request cause broken :=
    ⟨(serve_of_breaks broken).2.2, (serve_of_breaks broken).2.1⟩
  silent request whole := (serve_of_not_breaks whole).2
  poisoned_iff := by
    refine ⟨exists_breaks sound, ?_⟩
    rintro ⟨before, request, later, cause, rfl, broken⟩
    exact (serveAll_of_breaks broken later).1
  warned := by
    rintro before request later cause rfl broken
    obtain ⟨-, bytesWritten, warned⟩ := serveAll_of_breaks broken later
    rw [warned, bytesWritten]
  unwarned := warnings_of_sound
  forever poisoned later := by
    have still := (serveAll_of_poisoned poisoned later).1
    exact ⟨still, NodeLog.write_of_poisoned still _⟩

/-- **A log is poisoned exactly by a write that cannot be undone, and for good.** That write alone
warns, and all later ones are refused. -/
theorem serveAll_poisoning {v w : Volume} {l : Location} {settings : Settings} {log : NodeLog}
    {events : List Event} (created : NodeLog.create v l settings = .ok (log, w, events))
    (requests : List Request) :
    Event.warnings events = [] ∧ (start log w).Poisoning requests := by
  refine ⟨?_, poisoning (NodeLog.create_holds created).2.1 requests⟩
  rw [NodeLog.create] at created
  split at created
  · cases created
  · cases created
    rfl

/-- Nothing can be stored and no length be set, so that the first of two writes breaks the log. -/
theorem full_poisoning : ∃ log w events, createAlone .full 8 = .ok (log, w, events) ∧
    let requests := [.flush, .write .sample, .read Node.sample.id, .write .sample]
    (start log w).Poisoning requests ∧
      ((start log w).serveAll requests).2.log.poisoned = true ∧
      Event.warnings ((start log w).eventsAll requests) =
        [.rollbackFailed 0 (.system .invalidArgument)] := by
  have created : createAlone .full 8 = .ok (_, _, _) := rfl
  exact ⟨_, _, _, created, (serveAll_poisoning created _).2, by decide +kernel, by decide +kernel⟩

end Session

end BehaviorGraph
