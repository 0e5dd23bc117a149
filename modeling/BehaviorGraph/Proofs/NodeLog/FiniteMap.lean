import BehaviorGraph.Proofs.NodeLog.Session

/-!
# A log is a finite map

On a medium that does not fail, a log answers as a map that holds the latest node of each identity,
whatever the capacity of its buffer and however few bytes a single write stores.

* `Session.Sound`, `Session.serve_eq`: one request;
* **`Session.refines_map`**: every list of requests.
-/

namespace BehaviorGraph

namespace Session

/-- Nothing failed yet, and nothing will. -/
structure Sound (s : Session) : Prop where
  holds : s.Holds
  sound : s.log.poisoned = false
  unfailing : s.volume.medium.Unfailing

variable {s : Session}

theorem Sound.kept {log : NodeLog} {v : Volume} (sound : s.Sound)
    (kept : s.log.Kept s.volume s.written log v) : Sound ⟨log, v, s.written⟩ :=
  ⟨kept.holds, kept.poisoned.trans sound.sound, kept.same.medium ▸ sound.unfailing⟩

/-- The reply to a request is that of the map, and so is what was written afterwards. -/
theorem serve_eq (sound : s.Sound) (request : Request) (fits : ∀ n, request = .write n → n.Fits) :
    ∃ s' : Session, s.serve request = ((s.written.serve request).1, s') ∧
      s'.written = (s.written.serve request).2 ∧ s'.Sound := by
  obtain ⟨holds, poisoned, unfailing⟩ := id sound
  cases request with
  | write n =>
    rcases NodeLog.write_spec holds n with ⟨log', v', outcome, holds', -, poisoned', same⟩ |
      ⟨_, _, _, _, _, _, _, _, failing⟩
    · simp only [serve, outcome, History.serve]
      exact ⟨_, rfl, rfl, holds', poisoned', same.medium ▸ unfailing⟩
    · exact absurd unfailing (failing poisoned (fits n rfl))
  | read id =>
    obtain ⟨kept, outcome | ⟨_, _, failing⟩⟩ := NodeLog.read_spec holds id
    · simp only [serve, outcome, History.serve]
      exact ⟨_, rfl, rfl, sound.kept kept⟩
    · exact absurd unfailing failing
  | require id =>
    obtain ⟨kept, outcome | ⟨_, _, failing⟩⟩ := NodeLog.require_spec holds id
    · simp only [serve, outcome, History.serve]
      exact ⟨_, rfl, rfl, sound.kept kept⟩
    · exact absurd unfailing failing
  | readInto n =>
    obtain ⟨kept, ⟨outcome, left⟩ | ⟨_, _, _, failing⟩⟩ := NodeLog.readInto_spec holds n
    · simp only [serve, outcome, left, History.serve]
      exact ⟨_, rfl, rfl, sound.kept kept⟩
    · exact absurd unfailing failing
  | flush =>
    obtain ⟨kept, outcome | ⟨_, _, failing⟩⟩ := NodeLog.flush_spec holds
    · simp only [serve, outcome, History.serve]
      exact ⟨_, rfl, rfl, sound.kept kept⟩
    · exact absurd unfailing failing

theorem serveAll_eq (sound : s.Sound) (requests : List Request)
    (fits : ∀ n, .write n ∈ requests → n.Fits) :
    ∃ s' : Session, s.serveAll requests = ((s.written.serveAll requests).1, s') ∧
      s'.written = (s.written.serveAll requests).2 ∧ s'.Sound := by
  induction requests generalizing s with
  | nil => exact ⟨s, rfl, rfl, sound⟩
  | cons request requests ih =>
    obtain ⟨t, first, written, sound'⟩ :=
      serve_eq sound request fun n same => fits n (same ▸ List.mem_cons_self)
    obtain ⟨u, rest, written', sound''⟩ :=
      ih sound' fun n there => fits n (List.mem_cons_of_mem _ there)
    refine ⟨u, ?_, ?_, sound''⟩
    · simp only [serveAll, History.serveAll, first, rest, written]
    · rw [written', written]
      rfl

/-- **A log is a finite map** of the latest nodes written, as long as its medium does not fail and
all of them fit. -/
theorem refines_map {v w : Volume} {l : Location} {settings : Settings} {log : NodeLog}
    {events : List Event} (created : NodeLog.create v l settings = .ok (log, w, events))
    (unfailing : v.medium.Unfailing) (requests : List Request)
    (fits : ∀ n, .write n ∈ requests → n.Fits) :
    let map := (History.serveAll [] requests).2
    (∃ s, (start log w).serveAll requests = ((History.serveAll [] requests).1, s) ∧
      s.log.Describes map) ∧
    (∀ n, n ∈ map ↔ .write n ∈ requests) ∧
    (∀ id, map.read id = none ↔ ∀ n ∈ map, n.id ≠ id) ∧
    ∀ id m, map.read id = some m →
      m.id = id ∧ map.IsLatest m ∧ m.edges.reserved = 0 ∧ m.hasPending = false := by
  obtain ⟨holds, poisoned, medium⟩ := NodeLog.create_holds created
  have sound : (start log w).Sound := ⟨holds, poisoned, medium ▸ unfailing⟩
  obtain ⟨s, served, written, sound'⟩ := serveAll_eq sound requests fits
  refine ⟨⟨s, served, ?_⟩, fun n => ?_, fun id => History.read_eq_none_iff, fun id m found => ?_⟩
  · have holds' := sound'.holds
    rw [Holds, written] at holds'
    exact holds'.describes
  · rw [History.mem_serveAll, or_iff_left List.not_mem_nil]
  · obtain ⟨same, latest⟩ := History.isLatest_of_read found
    exact ⟨same, latest, History.settled_of_read found⟩

theorem reliable_refines_map :
    let requests := [.write .sample, .read Node.sample.id, .write (.new Node.sample.id),
      .readInto .sample, .require default, .flush]
    ∃ log w events s, createAlone .reliable 5 = .ok (log, w, events) ∧ Medium.reliable.Unfailing ∧
      (∀ n, .write n ∈ requests → n.Fits) ∧
      (start log w).serveAll requests = ((History.serveAll [] requests).1, s) := by
  intro requests
  have created : createAlone .reliable 5 = .ok (_, _, _) := rfl
  have fits : ∀ n, .write n ∈ requests → n.Fits := by
    intro n there
    simp only [requests, List.mem_cons, Request.write.injEq, reduceCtorEq, List.not_mem_nil,
      or_false, false_or] at there
    rcases there with rfl | rfl
    · exact ⟨by decide, by decide⟩
    · exact ⟨by decide, by decide⟩
  obtain ⟨⟨s, served, -⟩, -⟩ := refines_map created Medium.reliable_unfailing requests fits
  exact ⟨_, _, _, s, created, Medium.reliable_unfailing, fits, served⟩

end Session

end BehaviorGraph
