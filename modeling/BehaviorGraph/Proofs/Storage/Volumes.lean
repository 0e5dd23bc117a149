import BehaviorGraph.Storage.Volume

/-!
# Volumes before and after

* `Volume.content_withContent`, `Volume.create_ok`: what a file holds after a change;
* `Volume.SameFiles`, `Volume.Idle`: steps that change nothing but contents, and not even these;
* `Medium.Unfailing`: media on which every call succeeds;
* `Volume.sourceAt_spec`: what can be read from a position on.
-/

namespace BehaviorGraph

namespace Volume

variable {v w : Volume}

theorem content_withContent {file : Nat} (bytes : List UInt8) (h : file < v.files.size) :
    (v.withContent file bytes).content file = bytes := by
  simp [withContent, content, Array.getD_eq_getD_getElem?, h]

@[simp] theorem content_called (v : Volume) (file : Nat) : v.called.content file = v.content file :=
  rfl

/-! ## Steps that keep the files -/

/-- The second volume has the files of the first under the same names, perhaps with other
contents. -/
structure SameFiles (v w : Volume) : Prop where
  medium : w.medium = v.medium
  directories : w.directories = v.directories
  names : w.names = v.names
  size : w.files.size = v.files.size

namespace SameFiles

theorem refl (v : Volume) : v.SameFiles v := ⟨rfl, rfl, rfl, rfl⟩

theorem trans {u : Volume} (h : u.SameFiles v) (h' : v.SameFiles w) : u.SameFiles w :=
  ⟨h'.medium.trans h.medium, h'.directories.trans h.directories, h'.names.trans h.names,
    h'.size.trans h.size⟩

theorem withContent (h : v.SameFiles w) (file : Nat) (bytes : List UInt8) :
    v.SameFiles (w.withContent file bytes) :=
  ⟨h.medium, h.directories, h.names, Array.size_setIfInBounds.trans h.size⟩

theorem fileAt (h : v.SameFiles w) (l : Location) : w.fileAt l = v.fileAt l := by
  rw [Volume.fileAt, Volume.fileAt, h.directories, h.names]

end SameFiles

/-- Only calls were made that change no content. -/
structure Idle (v w : Volume) : Prop where
  same : v.SameFiles w
  files : w.files = v.files

namespace Idle

theorem refl (v : Volume) : v.Idle v := ⟨.refl v, rfl⟩

theorem trans {u : Volume} (h : u.Idle v) (h' : v.Idle w) : u.Idle w :=
  ⟨h.same.trans h'.same, h'.files.trans h.files⟩

theorem called (h : v.Idle w) : v.Idle w.called :=
  ⟨⟨h.same.1, h.same.2, h.same.3, h.same.4⟩, h.files⟩

theorem content (h : v.Idle w) (file : Nat) : w.content file = v.content file := by
  rw [Volume.content, Volume.content, h.files]

end Idle

theorem idle_called (v : Volume) : v.Idle v.called := (Idle.refl v).called

/-! ## Names -/

theorem fileAt_of_mem {l : Location} (h : l.path ∈ v.directories) :
    v.fileAt l = .error (.system .isADirectory) := if_pos h

theorem mem_names_of_fileAt {l : Location} {file : Nat} (h : v.fileAt l = .ok file) :
    (l, file) ∈ v.names := by
  rw [fileAt] at h
  split at h
  · cases h
  · split at h
    next found =>
      cases h
      obtain ⟨front, back, names, -⟩ := List.lookup_eq_some_iff.1 found
      rw [names]
      exact List.mem_append_right _ List.mem_cons_self
    next => cases h

theorem fileAt_lt {l : Location} {file : Nat} (h : v.fileAt l = .ok file) : file < v.files.size :=
  v.names_lt (l, file) (mem_names_of_fileAt h)

/-- A file that was just created goes by the name asked for, and is empty. -/
theorem create_ok {l : Location} {file : Nat} (h : v.create l = .ok (file, w)) :
    w.fileAt l = .ok file ∧ file < w.files.size ∧ w.content file = [] ∧ w.medium = v.medium := by
  rw [create] at h
  split at h
  next there =>
    cases h
    have inside := fileAt_lt there
    have same := (SameFiles.refl v).withContent file []
    exact ⟨(same.fileAt l).trans there, Nat.lt_of_lt_of_eq inside same.size.symm,
      content_withContent [] inside, rfl⟩
  next missing =>
    have file : l.path ∉ v.directories := fun directory => by
      cases (fileAt_of_mem directory).symm.trans missing
    split at h
    · cases h
      refine ⟨?_, ?_, ?_, rfl⟩
      · simp only [fileAt, if_neg file, List.lookup_cons_self]
      · simp
      · simp [content]
    · cases h
  next => cases h

end Volume

/-- Every call succeeds: a write stores at least a byte, and reading breaks off at the end of the
file only. -/
structure Medium.Unfailing (m : Medium) : Prop where
  write : ∀ call position count, 0 < count → ∃ stored, 0 < stored ∧
    m.write call position count = .ok stored
  resize : ∀ call length newLength, m.resize call length newLength = .ok ()
  openRead : ∀ call, m.openRead call = .ok ()
  seek : ∀ call position, m.seek call position = .ok ()
  breaksOff : ∀ call position, m.breaksOff call position = none

theorem Medium.reliable_unfailing : Medium.reliable.Unfailing where
  write _ _ count some := ⟨count, some, rfl⟩
  resize _ _ _ := rfl
  openRead _ := rfl
  seek _ _ := rfl
  breaksOff _ _ := rfl

/-- A source shows the bytes of the file from a position on, or breaks off among them. -/
theorem Volume.sourceAt_spec {v : Volume} {file : Nat} {front bytes : List UInt8}
    (content : v.content file = front ++ bytes) :
    ∃ source, v.sourceAt file front.length = (source, v.called) ∧ source.chunk = none ∧
      (∃ count, source.rest = bytes.take count) ∧ (v.medium.Unfailing → source.rest = bytes) := by
  rw [sourceAt, content, List.drop_left]
  cases broken : v.medium.breaksOff v.calls front.length with
  | none => exact ⟨_, rfl, rfl, ⟨bytes.length, List.take_length.symm⟩, fun _ => rfl⟩
  | some limit =>
    refine ⟨_, rfl, rfl, ⟨limit.1, rfl⟩, fun unfailing => ?_⟩
    cases (unfailing.breaksOff v.calls front.length).symm.trans broken

end BehaviorGraph
