import BehaviorGraph.Proofs.Storage.Appending

/-!
# Steady media

A medium is steady if the calls that were made on it before do not change how bytes are written
and read. Calls that changed no content are not seen then, and a buffer that is emptied again, be it
after a failure, is left as it was.

* `pour_alike`, **`pour_again`**: pouring elsewhere, and pouring again what was left over;
* `Medium.Steady`, `Handle.Alike`: no call is noticed, and states between which none was;
* `Appender.flush_emptied`, **`Appender.flush_again`**: emptying a buffer twice.
-/

namespace BehaviorGraph

/-! ## Pouring again and elsewhere -/

section Pouring

variable {σ : Type} {write : List UInt8 → σ → Except Fault Nat × σ} {bytes : List UInt8} {s s' : σ}

theorem pour_nil (write : List UInt8 → σ → Except Fault Nat × σ) (s : σ) :
    pour write [] s = ⟨[], none, s⟩ := by rw [pour, if_pos rfl]

theorem pour_refused {fault : Fault} (left : bytes ≠ [])
    (refused : write bytes s = (.error fault, s')) :
    pour write bytes s = ⟨bytes, some (.refused fault), s'⟩ := by
  rw [pour, if_neg left, refused]

theorem pour_stalled (left : bytes ≠ []) (stalled : write bytes s = (.ok 0, s')) :
    pour write bytes s = ⟨bytes, some .stalled, s'⟩ := by
  rw [pour, if_neg left, stalled]

theorem pour_taken {n : Nat} (left : bytes ≠ []) (taken : write bytes s = (.ok (n + 1), s')) :
    pour write bytes s = pour write (bytes.drop (n + 1)) s' := by
  rw [pour, if_neg left, taken]

theorem pour_rest (done : (pour write bytes s).halt = none) : (pour write bytes s).rest = [] := by
  fun_induction pour write bytes s with
  | case1 => rfl
  | case2 => cases done
  | case3 => cases done
  | case4 _ _ _ _ _ _ ih => exact ih done

/-- What every write keeps, a pouring keeps. -/
theorem pour_keeps (kept : σ → Prop) (step : ∀ bytes s, kept s → kept (write bytes s).2)
    (h : kept s) : kept (pour write bytes s).state := by
  fun_induction pour write bytes s with
  | case1 => exact h
  | case2 bytes s _ _ _ refused =>
    have := step bytes s h
    rwa [refused] at this
  | case3 bytes s _ _ stalled =>
    have := step bytes s h
    rwa [stalled] at this
  | case4 bytes s _ _ _ taken ih =>
    have := step bytes s h
    rw [taken] at this
    exact ih this

section Alike

variable {alike : σ → σ → Prop}
  (step : ∀ bytes s t, alike s t →
    ∃ t', write bytes t = ((write bytes s).1, t') ∧ alike (write bytes s).2 t')
include step

/-- From states that no write tells apart, pouring ends in such states and in the same way. -/
theorem pour_alike (bytes : List UInt8) {s t : σ} (h : alike s t) :
    ∃ t', pour write bytes t = { pour write bytes s with state := t' } ∧
      alike (pour write bytes s).state t' := by
  fun_induction pour write bytes s generalizing t with
  | case1 s => exact ⟨t, pour_nil write t, h⟩
  | case2 bytes s left fault s' refused =>
    obtain ⟨t', same, after⟩ := step bytes s t h
    rw [refused] at same after
    exact ⟨t', pour_refused left same, after⟩
  | case3 bytes s left s' stalled =>
    obtain ⟨t', same, after⟩ := step bytes s t h
    rw [stalled] at same after
    exact ⟨t', pour_stalled left same, after⟩
  | case4 bytes s left n s' taken ih =>
    obtain ⟨t', same, after⟩ := step bytes s t h
    rw [taken] at same after
    rw [pour_taken left same]
    exact ih after

/-- If a write that takes nothing is not seen, pouring what is left over ends in the same way. -/
theorem pour_again (bytes : List UInt8) {s : σ}
    (still : ∀ bytes s, alike s s → (∀ n, (write bytes s).1 ≠ .ok (n + 1)) →
      alike s (write bytes s).2)
    (h : alike s s) :
    ∃ t, pour write (pour write bytes s).rest (pour write bytes s).state =
        { pour write bytes s with state := t } ∧ alike (pour write bytes s).state t := by
  -- the last state before the end, in which the pouring could as well have begun
  have last : ∃ t, alike t (pour write bytes s).state ∧
      pour write (pour write bytes s).rest t = pour write bytes s := by
    fun_induction pour write bytes s with
    | case1 s => exact ⟨s, h, pour_nil write s⟩
    | case2 bytes s left fault s' refused =>
      have same := still bytes s h
      rw [refused] at same
      exact ⟨s, same (fun _ taken => by cases taken), pour_refused left refused⟩
    | case3 bytes s left s' stalled =>
      have same := still bytes s h
      rw [stalled] at same
      exact ⟨s, same (fun _ taken => by cases taken), pour_stalled left stalled⟩
    | case4 bytes s left n s' taken ih =>
      obtain ⟨t, same, after⟩ := step bytes s s h
      rw [taken] at same after
      cases same
      exact ih after
  obtain ⟨t, same, again⟩ := last
  have later := pour_alike step (pour write bytes s).rest same
  rwa [again] at later

end Alike

end Pouring

/-! ## Volumes and handles -/

/-- However many calls were made before, bytes are written and read alike. -/
structure Medium.Steady (m : Medium) : Prop where
  write : ∀ call call' position count,
    m.write call' position count = m.write call position count
  openRead : ∀ call call', m.openRead call' = m.openRead call
  seek : ∀ call call' position, m.seek call' position = m.seek call position
  breaksOff : ∀ call call' position, m.breaksOff call' position = m.breaksOff call position

theorem Medium.limited_steady (limit : Nat) : (Medium.limited limit).Steady :=
  ⟨fun _ _ _ _ => rfl, fun _ _ => rfl, fun _ _ _ => rfl, fun _ _ _ => rfl⟩

namespace Volume

variable {v w : Volume}

theorem Idle.withContent (idle : v.Idle w) (file : Nat) (bytes : List UInt8) :
    (v.withContent file bytes).Idle (w.withContent file bytes) := by
  refine ⟨⟨idle.same.medium, idle.same.directories, idle.same.names, ?_⟩, ?_⟩
  · exact congrArg (fun files => (files.setIfInBounds file bytes).size) idle.files
  · exact congrArg (·.setIfInBounds file bytes) idle.files

theorem files_withContent_content (v : Volume) (file : Nat) :
    (v.withContent file (v.content file)).files = v.files := by
  change v.files.setIfInBounds file (v.content file) = v.files
  rw [Array.setIfInBounds_def]
  by_cases inside : file < v.files.size
  · have there : v.content file = v.files[file] := by
      simp [content, Array.getD_eq_getD_getElem?, inside]
    rw [dif_pos inside, there, Array.set_getElem_self]
  · rw [dif_neg inside]

/-- A write that stores nothing changes no content. -/
theorem idle_write {file position : Nat} {bytes : List UInt8}
    (nothing : ∀ n, (v.write file position bytes).1 ≠ .ok (n + 1)) :
    v.Idle (v.write file position bytes).2 := by
  rw [write] at nothing ⊢
  cases taken : v.medium.write v.calls position bytes.length with
  | error fault => exact v.idle_called
  | ok n =>
    rw [taken] at nothing
    have stored : bytes.take n = [] := by
      refine List.eq_nil_of_length_eq_zero (Nat.eq_zero_of_not_pos fun positive => ?_)
      exact nothing _ (congrArg Except.ok (Nat.sub_add_cancel positive).symm)
    simp only [stored, overlay_nil]
    exact v.idle_called.trans ⟨(SameFiles.refl _).withContent _ _, files_withContent_content _ _⟩

theorem sameFiles_write (v : Volume) (file position : Nat) (bytes : List UInt8) :
    v.SameFiles (v.write file position bytes).2 := by
  rw [write]
  cases v.medium.write v.calls position bytes.length with
  | error fault => exact v.idle_called.same
  | ok n => exact v.idle_called.same.withContent _ _

theorem write_idle (steady : v.medium.Steady) (idle : v.Idle w) (file position : Nat)
    (bytes : List UInt8) :
    ∃ w', w.write file position bytes = ((v.write file position bytes).1, w') ∧
      (v.write file position bytes).2.Idle w' := by
  simp only [write, idle.same.medium, steady.write v.calls w.calls, idle.content]
  have called : v.called.Idle w.called :=
    ⟨⟨idle.same.1, idle.same.2, idle.same.3, idle.same.4⟩, idle.files⟩
  cases v.medium.write v.calls position bytes.length with
  | error fault => exact ⟨_, rfl, called⟩
  | ok n => exact ⟨_, rfl, called.withContent _ _⟩

end Volume

namespace Handle

/-- The same handle, and no call on a steady volume that is seen. -/
def Alike (s t : Handle × Volume) : Prop := t.1 = s.1 ∧ s.2.Idle t.2 ∧ s.2.medium.Steady

/-- The handle after a write with this answer. -/
def past (h : Handle) : Except Fault Nat → Handle
  | .ok n => { h with cursor := h.cursor + n }
  | .error _ => h

theorem write_eq (bytes : List UInt8) (h : Handle) (v : Volume) :
    write bytes (h, v) = ((v.write h.file h.cursor bytes).1,
      h.past (v.write h.file h.cursor bytes).1, (v.write h.file h.cursor bytes).2) := by
  simp only [write]
  rcases v.write h.file h.cursor bytes with ⟨_ | _, _⟩ <;> rfl

theorem write_alike (bytes : List UInt8) (s t : Handle × Volume) (alike : Alike s t) :
    ∃ t', write bytes t = ((write bytes s).1, t') ∧ Alike (write bytes s).2 t' := by
  obtain ⟨h, v⟩ := s
  obtain ⟨h, w⟩ := t
  obtain ⟨rfl, idle, steady⟩ := alike
  obtain ⟨w', same, idle'⟩ := Volume.write_idle steady idle h.file h.cursor bytes
  rw [write_eq, write_eq, same]
  exact ⟨_, rfl, rfl, idle', (v.sameFiles_write _ _ _).medium ▸ steady⟩

theorem write_still (bytes : List UInt8) (s : Handle × Volume) (alike : Alike s s)
    (nothing : ∀ n, (write bytes s).1 ≠ .ok (n + 1)) : Alike s (write bytes s).2 := by
  obtain ⟨h, v⟩ := s
  rw [write_eq] at nothing ⊢
  refine ⟨?_, Volume.idle_write nothing, alike.2.2⟩
  cases answer : (v.write h.file h.cursor bytes).1 with
  | error fault => rfl
  | ok n =>
    cases n with
    | zero => rfl
    | succ n => exact absurd answer (nothing n)

end Handle

/-! ## Emptying a buffer -/

namespace Appender

variable {a a' : Appender} {v v' : Volume} {result : Except Fault Unit}

theorem flush_rest (flushed : a.flush v = (.ok (), a', v')) : a'.pending = [] := by
  rw [flush, Prod.mk.injEq, Prod.mk.injEq] at flushed
  obtain ⟨outcome, rfl, -⟩ := flushed
  refine pour_rest ?_
  rw [Poured.outcome] at outcome
  split at outcome
  next done => exact done
  all_goals cases outcome

/-- A buffer that was emptied needs no emptying. -/
theorem flush_emptied (flushed : a.flush v = (.ok (), a', v')) (w : Volume) :
    a'.flush w = (.ok (), a', w) :=
  flush_nil (flush_rest flushed)

theorem flush_sameFiles (flushed : a.flush v = (result, a', v')) : v.SameFiles v' := by
  rw [flush, Prod.mk.injEq, Prod.mk.injEq] at flushed
  obtain ⟨-, -, rfl⟩ := flushed
  refine pour_keeps (fun s : Handle × Volume => v.SameFiles s.2) (fun bytes s same => ?_) (.refl v)
  rw [Handle.write_eq bytes s.1 s.2]
  exact same.trans (s.2.sameFiles_write _ _ _)

/-- **To empty a buffer again ends as it ended before and changes no content.** -/
theorem flush_again (steady : v.medium.Steady) (flushed : a.flush v = (result, a', v')) :
    ∃ w, a'.flush v' = (result, a', w) ∧ v'.Idle w := by
  obtain ⟨⟨h, w⟩, same, rfl, idle, -⟩ := pour_again Handle.write_alike a.pending
    (s := (a.handle, v)) Handle.write_still ⟨rfl, .refl v, steady⟩
  rw [flush, Prod.mk.injEq, Prod.mk.injEq] at flushed
  obtain ⟨rfl, rfl, rfl⟩ := flushed
  exact ⟨w, by rw [flush, same]; rfl, idle⟩

end Appender

end BehaviorGraph
