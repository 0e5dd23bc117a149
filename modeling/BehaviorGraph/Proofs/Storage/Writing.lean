import BehaviorGraph.Proofs.Storage.Volumes
import BehaviorGraph.Storage.Handle

/-!
# Writing at the end of a file

A handle at the end of its file stays there, whatever becomes of its calls: what a call stores
lengthens the file, and a call that fails changes no file.

* `Handle.AtEnd`, `Handle.Moved`: a handle at the end of its file, and a step that keeps it there;
* **`Handle.pour_write`**: a pouring stores a front part of its bytes and keeps the rest;
* `Handle.truncateTo_cases`: cutting off what follows a front part.
-/

namespace BehaviorGraph

namespace Handle

/-! ## Handles at the end of their file -/

/-- A handle stands at the end of a file of the volume. -/
structure AtEnd (h : Handle) (v : Volume) : Prop where
  file_lt : h.file < v.files.size
  cursor_eq : h.cursor = (v.content h.file).length

/-- After a step the handle stands at the end of the same file of the same volume. -/
structure Moved (h : Handle) (v : Volume) (h' : Handle) (v' : Volume) : Prop where
  file : h'.file = h.file
  atEnd : h'.AtEnd v'
  same : v.SameFiles v'

variable {h h' : Handle} {v v' : Volume}

theorem Moved.refl (atEnd : h.AtEnd v) : Moved h v h v := ⟨rfl, atEnd, .refl v⟩

theorem Moved.trans {h'' : Handle} {v'' : Volume} (first : Moved h v h' v')
    (second : Moved h' v' h'' v'') : Moved h v h'' v'' :=
  ⟨second.file.trans first.file, second.atEnd, first.same.trans second.same⟩

theorem write_error {bytes : List UInt8} {fault : Fault}
    (refused : v.medium.write v.calls h.cursor bytes.length = .error fault) :
    write bytes (h, v) = (.error fault, h, v.called) := by
  simp only [write, Volume.write, refused]

theorem write_ok {bytes : List UInt8} {n : Nat} (atEnd : h.AtEnd v)
    (taken : v.medium.write v.calls h.cursor bytes.length = .ok n) :
    ∃ h' v', write bytes (h, v) = (.ok (bytes.take n).length, h', v') ∧ Moved h v h' v' ∧
      v'.content h.file = v.content h.file ++ bytes.take n := by
  have content : (v.called.withContent h.file
      (overlay (v.content h.file) h.cursor (bytes.take n))).content h.file =
        v.content h.file ++ bytes.take n := by
    rw [Volume.content_withContent _ (by exact atEnd.file_lt), atEnd.cursor_eq, overlay_end]
  refine ⟨{ h with cursor := h.cursor + (bytes.take n).length }, _,
    by simp only [write, Volume.write, taken], ⟨rfl, ⟨?_, ?_⟩, ?_⟩, content⟩
  · exact Nat.lt_of_lt_of_eq atEnd.file_lt Array.size_setIfInBounds.symm
  · rw [content, List.length_append, atEnd.cursor_eq]
  · exact (Volume.Idle.refl v).called.same.withContent _ _

/-! ## Pouring through a handle -/

/-- **A pouring at the end of a file stores a front part of the bytes there and keeps the rest.** -/
theorem pour_write (bytes : List UInt8) (atEnd : h.AtEnd v) :
    ∃ stored h' v' halt, pour write bytes (h, v) = ⟨bytes.drop stored, halt, h', v'⟩ ∧
      stored ≤ bytes.length ∧ (halt = none → stored = bytes.length) ∧
      (v.medium.Unfailing → halt = none) ∧ Moved h v h' v' ∧
      v'.content h.file = v.content h.file ++ bytes.take stored := by
  -- on the number of bytes left, of which a call takes any front part
  induction size : bytes.length using Nat.strongRecOn generalizing h v bytes with
  | ind size ih =>
    subst size
    rw [pour]
    by_cases empty : bytes = []
    · subst empty
      exact ⟨0, h, v, none, rfl, Nat.le_refl _, fun _ => rfl, fun _ => rfl, .refl atEnd, by simp⟩
    have some := List.length_pos_iff.2 empty
    rw [if_neg empty]
    have called : Moved h v h v.called := ⟨rfl, ⟨atEnd.1, atEnd.2⟩, (Volume.Idle.refl v).called.same⟩
    cases taken : v.medium.write v.calls h.cursor bytes.length with
    | error fault =>
      rw [write_error taken]
      refine ⟨0, h, v.called, _, rfl, Nat.zero_le _, nofun, fun unfailing => ?_, called, by simp⟩
      obtain ⟨n, -, other⟩ := unfailing.write v.calls h.cursor _ some
      cases other.symm.trans taken
    | ok n =>
      obtain ⟨h', v', outcome, moved, content⟩ := write_ok atEnd taken
      rw [outcome]
      cases count : (bytes.take n).length with
      | zero =>
        rw [List.eq_nil_of_length_eq_zero count] at content
        refine ⟨0, h', v', _, rfl, Nat.zero_le _, nofun, fun unfailing => ?_, moved,
          by simpa using content⟩
        obtain ⟨m, positive, other⟩ := unfailing.write v.calls h.cursor _ some
        cases other.symm.trans taken
        rw [List.length_take] at count
        omega
      | succ k =>
        have fewer : k + 1 ≤ bytes.length := count ▸ List.length_take_le' _ _
        have front : bytes.take n = bytes.take (k + 1) := by
          rw [← count, List.length_take, ← List.take_eq_take_min]
        obtain ⟨more, h'', v'', halt, later, le, all, whole, moved', content'⟩ :=
          ih (bytes.drop (k + 1)).length (by rw [List.length_drop]; omega) (bytes.drop (k + 1))
            moved.atEnd rfl
        rw [List.length_drop] at le all
        refine ⟨k + 1 + more, h'', v'', halt, ?_, by omega, fun done => ?_, fun unfailing => ?_,
          moved.trans moved', ?_⟩
        · rw [← List.drop_drop]
          exact later
        · have := all done
          omega
        · exact whole (moved.same.medium ▸ unfailing)
        · rw [moved.file, content, front, List.append_assoc] at content'
          rw [content', ← List.take_add]

/-! ## Cutting off -/

/-- Cutting a file back to a front part of its content leaves the handle at its end, or at least
the front part in the file. -/
theorem truncateTo_cases {kept cut : List UInt8} (atEnd : h.AtEnd v)
    (content : v.content h.file = kept ++ cut) :
    (∃ h' v', h.truncateTo v kept.length = (.ok (), h', v') ∧ Moved h v h' v' ∧
      v'.content h.file = kept) ∨
    ∃ fault h' v', h.truncateTo v kept.length = (.error fault, h', v') ∧ h'.file = h.file ∧
      v.SameFiles v' ∧ kept <+: v'.content h.file := by
  have called := v.idle_called.same
  rw [truncateTo, Volume.resize]
  cases v.medium.resize v.calls (v.content h.file).length kept.length with
  | error fault =>
    exact .inr ⟨fault, h, v.called, rfl, rfl, called, content ▸ List.prefix_append kept cut⟩
  | ok _ =>
    simp only [content, withLength_append]
    have inside : h.file < v.called.files.size := atEnd.file_lt
    have cut' := Volume.content_withContent kept inside
    have same := called.withContent h.file kept
    generalize v.called.withContent h.file kept = w at cut' same
    have same' := same.trans w.idle_called.same
    rcases h.seek_cases w kept.length with ⟨-, sought⟩ | ⟨fault, -, sought⟩
    · refine .inl ⟨_, _, sought, ⟨rfl, ⟨?_, ?_⟩, same'⟩, cut'⟩
      · exact Nat.lt_of_lt_of_eq atEnd.file_lt same.size.symm
      · exact congrArg List.length cut'.symm
    · exact .inr ⟨fault, h, w.called, sought, rfl, same', cut' ▸ List.prefix_refl kept⟩

end Handle

end BehaviorGraph
