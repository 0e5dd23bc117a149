import BehaviorGraph.Proofs.Building.Indistinct
import BehaviorGraph.Proofs.NodeLog.FiniteMap

/-!
# Paging is not seen

While a node is built it may leave memory at any point: it is written to a log and what is read back
takes its place. Whatever else the log is asked before, meanwhile and between, the finished node
cannot be told apart from one that stayed in memory.

* `Node.fits_of_build`: nodes do not shrink, so one that fits fitted all along;
* `Session.serve_sound`, `Session.latest_serveAll`: requests about other nodes;
* `Session.pageThrough`, **`Session.pageThrough_appearance`**: out of memory and back;
* `PagedStep`, `Session.buildPaged`, **`Session.buildPaged_indistinct`**: building with paging.
-/

namespace BehaviorGraph

open BuildStep

/-! ## Nodes do not shrink -/

namespace Node

variable {n m : Node}

theorem Fits.congr (fits : m.Fits) (same : n.appearance = m.appearance) : n.Fits := by
  have alike := indistinct_of_appearance same
  constructor
  · rw [alike.edgeCount]
    exact fits.edges
  · rw [BitSet.wordCount, alike.words]
    exact fits.words

/-- A step is done alike on nodes that look alike. -/
theorem exists_perform {n' n₁ : Node} {step : BuildStep} (same : n'.appearance = n.appearance)
    (done : n.perform step = .ok n₁) :
    ∃ n₁', n'.perform step = .ok n₁' ∧ n₁'.appearance = n₁.appearance := by
  have seen := n'.appearance_perform step
  rw [same, ← appearance_perform, done] at seen
  exact exists_of_map_ok seen

theorem exists_grown {steps : List BuildStep} (built : n.build steps = .ok m) :
    ∃ targets bits, m.appearance = n.appearance.grown targets bits := by
  have seen := n.appearance_build steps
  rw [built, Appearance.build_eq] at seen
  obtain ⟨bits, -, grown⟩ := exists_of_map_ok seen.symm
  exact ⟨_, _, grown.symm⟩

theorem id_of_build {steps : List BuildStep} (built : n.build steps = .ok m) : m.id = n.id := by
  obtain ⟨targets, bits, seen⟩ := exists_grown built
  exact congrArg Appearance.id seen

theorem fits_of_build {steps : List BuildStep} (built : n.build steps = .ok m) (fits : m.Fits) :
    n.Fits := by
  obtain ⟨targets, bits, seen⟩ := exists_grown built
  have successors : m.successors = n.successors ++ targets := congrArg Appearance.targets seen
  have words : m.truths.bits = n.truths.bits.insertAll bits :=
    congrArg (fun p => p.truths.bits) seen
  constructor
  · refine Nat.le_trans (Nat.mul_le_mul_right _ ?_) fits.edges
    rw [← length_successors, ← length_successors, successors, List.length_append]
    exact Nat.le_add_right _ _
  · refine Nat.le_trans ?_ fits.words
    rw [words]
    exact BitSet.wordCount_le_insertAll _ _

/-- What is read back of a node looks as the node did. -/
theorem appearance_refilled (n : Node) : ((new n.id).refilled n).appearance = n.appearance := by
  simp only [appearance, refilled, successors, Edges.committed_ofCommitted]
  rfl

end Node

/-! ## Requests about other nodes -/

/-- A node that does not fit is refused before anything is written. -/
theorem NodeLog.write_refused {log : NodeLog} {n : Node} (v : Volume)
    (sound : log.poisoned = false) (large : ¬ n.Fits) :
    ∃ e, log.write v n = ⟨.error e, log, v, []⟩ := by
  rw [write, if_neg (Bool.eq_false_iff.1 sound)]
  cases encoded : n.encode with
  | error e => exact ⟨e, rfl⟩
  | ok bytes => exact absurd (Node.fits_of_encode encoded) large

namespace Session

variable {s : Session}

theorem serve_sound (sound : s.Sound) (request : Request) : (s.serve request).2.Sound := by
  by_cases fits : ∀ n, request = .write n → n.Fits
  · obtain ⟨s', served, -, sound'⟩ := serve_eq sound request fits
    rw [served]
    exact sound'
  · push Not at fits
    obtain ⟨n, rfl, large⟩ := fits
    obtain ⟨e, refused⟩ := NodeLog.write_refused s.volume sound.sound large
    rw [serve, refused]
    exact sound

theorem serveAll_sound (sound : s.Sound) (requests : List Request) :
    (s.serveAll requests).2.Sound := by
  induction requests generalizing s with
  | nil => exact sound
  | cons request requests ih => exact ih (serve_sound sound request)

theorem start_sound {v w : Volume} {l : Location} {settings : Settings} {log : NodeLog}
    {events : List Event} (created : NodeLog.create v l settings = .ok (log, w, events))
    (unfailing : v.medium.Unfailing) : (start log w).Sound := by
  obtain ⟨holds, poisoned, medium⟩ := NodeLog.create_holds created
  exact ⟨holds, poisoned, medium ▸ unfailing⟩

/-- No request but a write under this identity changes what is known of it. -/
theorem latest_serve {id : NodeId} (request : Request)
    (apart : ∀ n, request = .write n → n.id ≠ id) :
    (s.serve request).2.written.latest id = s.written.latest id := by
  cases request with
  | write n =>
    change (note s.written n _).latest id = _
    cases (s.log.write s.volume n).result with
    | error e => rfl
    | ok offset => exact if_neg (apart n rfl)
  | _ => rfl

theorem latest_serveAll {id : NodeId} (requests : List Request)
    (apart : ∀ n, .write n ∈ requests → n.id ≠ id) :
    (s.serveAll requests).2.written.latest id = s.written.latest id := by
  induction requests generalizing s with
  | nil => rfl
  | cons request requests ih =>
    have first := latest_serve (s := s) request fun n same => apart n (same ▸ List.mem_cons_self)
    rw [← first]
    exact ih fun n there => apart n (List.mem_cons_of_mem _ there)

end Session

/-! ## Out of memory and back -/

/-- How a node is brought back: as a node of its own, or into an empty node of its identity. -/
inductive Return
  | afresh
  | intoShell

def Return.request (id : NodeId) : Return → Request
  | afresh => .read id
  | intoShell => .readInto (.new id)

/-- The node that was brought back. -/
def Reply.node? : Reply → Option Node
  | .found (.ok n?) => n?
  | .reloaded (.ok true) n => some n
  | _ => none

theorem History.node?_serve {h : History} {n : Node} {offset : Nat}
    (there : h.latest n.id = some (offset, n)) (back : Return) :
    (h.serve (back.request n.id)).1.node? = some ((Node.new n.id).refilled n) := by
  cases back with
  | afresh => exact read_of_latest there
  | intoShell =>
    have found : h.readInto (.new n.id) = (true, (Node.new n.id).refilled n) := by
      unfold readInto
      split
      next same => cases there.symm.trans same; rfl
      next never => cases there.symm.trans never
    simp only [Return.request, serve, found, Reply.node?]

namespace Session

variable {s : Session} {n : Node}

/-- Write a node, ask the log other things, and bring the node back. -/
def pageThrough (s : Session) (n : Node) (meanwhile : List Request) (back : Return) :
    Option (Node × Session) :=
  match s.serve (.write n) with
  | (.written (.ok _), s) =>
    let (_, s) := s.serveAll meanwhile
    let (reply, s) := s.serve (back.request n.id)
    reply.node?.map fun n => (n, s)
  | _ => none

/-- **What comes back looks as what left.** -/
theorem pageThrough_appearance (sound : s.Sound) (fits : n.Fits) {meanwhile : List Request}
    (apart : ∀ other, .write other ∈ meanwhile → other.id ≠ n.id) (back : Return) :
    ∃ n' s', s.pageThrough n meanwhile back = some (n', s') ∧ s'.Sound ∧
      n'.appearance = n.appearance := by
  obtain ⟨t, wrote, written, sound'⟩ :=
    serve_eq sound (.write n) fun m same => Request.write.inj same ▸ fits
  have wrote : s.serve (.write n) = (.written (.ok s.written.byteCount), t) := wrote
  have there : (t.serveAll meanwhile).2.written.latest n.id = some (s.written.byteCount, n) := by
    rw [latest_serveAll meanwhile apart, written]
    exact if_pos rfl
  have sound'' := serveAll_sound sound' meanwhile
  obtain ⟨u, reply, -, sound'''⟩ := serve_eq sound'' (back.request n.id) (by cases back <;> nofun)
  refine ⟨(Node.new n.id).refilled n, u, ?_, sound''', n.appearance_refilled⟩
  simp only [pageThrough, wrote, reply]
  rw [History.node?_serve there, Option.map_some]

end Session

/-! ## Building with paging -/

/-- What the writer of a node does, with its log at hand. -/
inductive PagedStep
  | build (step : BuildStep)
  | others (requests : List Request)
  | page (meanwhile : List Request) (back : Return)

/-- The step of a writer without a log. -/
def PagedStep.inMemory? : PagedStep → Option BuildStep
  | build step => some step
  | _ => none

namespace Session

variable {s : Session}

/-- Build a node and page it meanwhile. -/
def buildPaged (s : Session) (n : Node) : List PagedStep → Option (Node × Session)
  | [] => some (n, s)
  | .build step :: steps =>
    match n.perform step with
    | .ok n => s.buildPaged n steps
    | .error _ => none
  | .others requests :: steps => (s.serveAll requests).2.buildPaged n steps
  | .page meanwhile back :: steps =>
    match s.pageThrough n meanwhile back with
    | some (n, s) => s.buildPaged n steps
    | none => none

theorem buildPaged_appearance {n n' m : Node} {steps : List PagedStep} (sound : s.Sound)
    (apart : ∀ meanwhile back, .page meanwhile back ∈ steps →
      ∀ other, .write other ∈ meanwhile → other.id ≠ m.id)
    (same : n'.appearance = n.appearance)
    (built : n.build (steps.filterMap PagedStep.inMemory?) = .ok m) (fits : m.Fits) :
    ∃ m' s', s.buildPaged n' steps = some (m', s') ∧ m'.appearance = m.appearance := by
  induction steps generalizing s n n' with
  | nil =>
    cases built
    exact ⟨n', s, rfl, same⟩
  | cons step steps ih =>
    have later := fun meanwhile back there => apart meanwhile back (List.mem_cons_of_mem step there)
    cases step with
    | build step =>
      obtain ⟨n₁, done, built'⟩ := exists_of_bind_ok built
      obtain ⟨n₁', done', same'⟩ := Node.exists_perform same done
      obtain ⟨m', t, rest, alike⟩ := ih sound later same' built'
      refine ⟨m', t, ?_, alike⟩
      rw [buildPaged, done']
      exact rest
    | others requests => exact ih (serveAll_sound sound requests) later same built
    | page meanwhile back =>
      have fits' := (Node.fits_of_build built fits).congr same
      have apart' := apart meanwhile back List.mem_cons_self
      have ids : n'.id = n.id := congrArg Appearance.id same
      rw [Node.id_of_build built, ← ids] at apart'
      obtain ⟨back', t, paged, sound', same'⟩ := pageThrough_appearance sound fits' apart' back
      obtain ⟨m', u, rest, alike⟩ := ih sound' later (same'.trans same) built
      refine ⟨m', u, ?_, alike⟩
      rw [buildPaged, paged]
      exact rest

/-- **Paging is not seen.** A node that is written and brought back at any points cannot be told
from one that is kept in memory. -/
theorem buildPaged_indistinct {v w : Volume} {l : Location} {settings : Settings} {log : NodeLog}
    {events : List Event} (created : NodeLog.create v l settings = .ok (log, w, events))
    (unfailing : v.medium.Unfailing) (before : List Request) {n m : Node} {steps : List PagedStep}
    (apart : ∀ meanwhile back, .page meanwhile back ∈ steps →
      ∀ other, .write other ∈ meanwhile → other.id ≠ n.id)
    (built : n.build (steps.filterMap PagedStep.inMemory?) = .ok m) (fits : m.Fits) :
    ∃ m' s, ((start log w).serveAll before).2.buildPaged n steps = some (m', s) ∧
      m'.Indistinct m := by
  have sound := serveAll_sound (start_sound created unfailing) before
  rw [← Node.id_of_build built] at apart
  obtain ⟨m', s, paged, same⟩ := buildPaged_appearance sound apart rfl built fits
  exact ⟨m', s, paged, Node.indistinct_of_appearance same⟩

/-- Between the steps the node leaves memory twice. -/
theorem sample_buildPaged :
    let steps := [.build (.reserve 3), .build (.add .sample),
      .page [.write .sample, .read default] .afresh, .build (.recordStates [true]),
      .others [.flush], .page [] .intoShell, .build (.add ⟨⟨70, 3⟩, default, none⟩)]
    ∃ log w events m m' s, createAlone .reliable 5 = .ok (log, w, events) ∧
      Medium.reliable.Unfailing ∧
      (Node.new default).build (steps.filterMap PagedStep.inMemory?) = .ok m ∧ m.Fits ∧
      ((start log w).serveAll [.write .sample]).2.buildPaged (.new default) steps =
        some (m', s) ∧ m'.Indistinct m := by
  intro steps
  have created : createAlone .reliable 5 = .ok (_, _, _) := rfl
  have apart : ∀ meanwhile back, .page meanwhile back ∈ steps →
      ∀ other, .write other ∈ meanwhile → other.id ≠ (Node.new default).id := by
    intro meanwhile back there other wrote
    have there : meanwhile = [.write .sample, .read default] ∨ meanwhile = [] := by
      simp only [steps, List.mem_cons, PagedStep.page.injEq, reduceCtorEq, List.not_mem_nil] at there
      tauto
    obtain rfl | rfl := there
    · have same : other = .sample := by simpa using wrote
      rw [same]
      decide
    · cases wrote
  obtain ⟨m, built, fits⟩ :
      ∃ m, (Node.new default).build (steps.filterMap PagedStep.inMemory?) = .ok m ∧ m.Fits :=
    ⟨_, rfl, by decide, by decide⟩
  obtain ⟨m', s, paged, same⟩ :=
    buildPaged_indistinct created Medium.reliable_unfailing [.write .sample] apart built fits
  exact ⟨_, _, _, m, m', s, created, Medium.reliable_unfailing, built, fits, paged, same⟩

end Session

end BehaviorGraph
