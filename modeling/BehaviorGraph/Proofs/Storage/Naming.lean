import BehaviorGraph.Proofs.Storage.Volumes

/-!
# Files and their names

A file is created under a name and keeps that name until it is unlinked: no operation gives a file
another one. So whoever creates a file under a name of their own can be sure that nobody empties it by
creating a file under any other name.

* `Volume.create_cases`, `Volume.content_create`: the file that is created, and all others;
* `Volume.Change`, `Volume.changed`: what may become of a volume;
* `Volume.Unshared`, `Volume.Later`: no file has two names, and none gets another one;
* **`Volume.GoesBy`**, `Volume.GoesBy.later`, `Volume.GoesBy.ne_of_create`: files known by their name.
-/

namespace BehaviorGraph

namespace Volume

variable {v w : Volume} {l : Location} {file : Nat}

/-! ## Creating a file -/

/-- The file is emptied if the location names one, and else it is a new one. -/
theorem create_cases (created : v.create l = .ok (file, w)) :
    ((l, file) ∈ v.names ∧ w = v.withContent file []) ∨
      (file = v.files.size ∧ w.names = (l, file) :: v.names ∧ w.files = v.files.push []) := by
  rw [create] at created
  split at created
  next named =>
    cases created
    exact .inl ⟨mem_names_of_fileAt named, rfl⟩
  next =>
    split at created
    · cases created
      exact .inr ⟨rfl, rfl, rfl⟩
    · cases created
  next => cases created

/-- To create a file leaves the bytes of all others. -/
theorem content_create {other : Nat} (created : v.create l = .ok (file, w)) (ne : other ≠ file) :
    w.content other = v.content other := by
  rcases create_cases created with ⟨-, rfl⟩ | ⟨rfl, -, files⟩
  · simp [content, withContent, Array.getD_eq_getD_getElem?, Ne.symm ne]
  · simp [content, files, Array.getD_eq_getD_getElem?, Array.getElem?_push, ne]

/-! ## Changes -/

/-- What users of a volume may do to it. -/
inductive Change
  /-- the bytes of a file are changed -/
  | rewrite (file : Nat) (bytes : List UInt8)
  /-- a file is created or emptied -/
  | create (l : Location)
  /-- a file loses its name -/
  | unlink (l : Location)
  /-- directories are made or removed -/
  | arrange (directories : List String)

/-- The volume after a change. If the change is refused, it stays as it is. -/
def changed (v : Volume) : Change → Volume
  | .rewrite file bytes => v.withContent file bytes
  | .create l =>
    match v.create l with
    | .ok (_, w) => w
    | .error _ => v
  | .unlink l =>
    match v.unlink l with
    | .ok w => w
    | .error _ => v
  | .arrange directories => { v with directories := directories }

/-- No file has two names. -/
def Unshared (v : Volume) : Prop := ∀ a ∈ v.names, ∀ b ∈ v.names, a.2 = b.2 → a.1 = b.1

/-- All names of the second volume are those of the first, or of files that the first has not. -/
structure Later (v w : Volume) : Prop where
  size : v.files.size ≤ w.files.size
  names : ∀ entry ∈ w.names, entry ∈ v.names ∨ v.files.size ≤ entry.2

theorem empty_unshared (medium : Medium) (directories : List String) :
    (empty medium directories).Unshared := by
  intro a there
  cases there

theorem Unshared.of_subset (unshared : v.Unshared) (names : w.names ⊆ v.names) : w.Unshared :=
  fun a ha b hb => unshared a (names ha) b (names hb)

theorem Later.of_subset (size : w.files.size = v.files.size) (names : w.names ⊆ v.names) :
    v.Later w :=
  ⟨Nat.le_of_eq size.symm, fun _ there => .inl (names there)⟩

theorem create_later (created : v.create l = .ok (file, w)) : v.Later w := by
  rcases create_cases created with ⟨-, rfl⟩ | ⟨rfl, names, files⟩
  · exact .of_subset Array.size_setIfInBounds (List.Subset.refl _)
  · refine ⟨by rw [files, Array.size_push]; exact Nat.le_succ _, ?_⟩
    rw [names]
    intro entry there
    rcases List.mem_cons.1 there with rfl | old
    · exact .inr (Nat.le_refl _)
    · exact .inl old

theorem Unshared.create (unshared : v.Unshared) (created : v.create l = .ok (file, w)) :
    w.Unshared := by
  rcases create_cases created with ⟨-, rfl⟩ | ⟨rfl, names, -⟩
  · exact unshared
  · -- the new file has a number that no name had before
    have fresh : ∀ entry ∈ v.names, entry.2 ≠ v.files.size := fun entry there =>
      Nat.ne_of_lt (v.names_lt entry there)
    intro a ha b hb same
    rw [names] at ha hb
    rcases List.mem_cons.1 ha with rfl | ha <;> rcases List.mem_cons.1 hb with rfl | hb
    · rfl
    · exact absurd same.symm (fresh b hb)
    · exact absurd same (fresh a ha)
    · exact unshared a ha b hb same

theorem unlink_subset (unlinked : v.unlink l = .ok w) :
    w.files = v.files ∧ w.names ⊆ v.names := by
  rw [unlink] at unlinked
  cases named : v.fileAt l with
  | error fault =>
    rw [named] at unlinked
    cases unlinked
  | ok file =>
    rw [named] at unlinked
    cases unlinked
    exact ⟨rfl, List.filter_sublist.subset⟩

/-- **No change gives a file another name.** -/
theorem changed_later (unshared : v.Unshared) (change : Change) :
    v.Later (v.changed change) ∧ (v.changed change).Unshared := by
  have still : v.Later v ∧ v.Unshared := ⟨.of_subset rfl (List.Subset.refl _), unshared⟩
  cases change with
  | rewrite file bytes =>
    exact ⟨.of_subset Array.size_setIfInBounds (List.Subset.refl _), unshared⟩
  | create l =>
    rw [changed]
    split
    next created => exact ⟨create_later created, unshared.create created⟩
    next => exact still
  | unlink l =>
    rw [changed]
    split
    next unlinked =>
      obtain ⟨files, names⟩ := unlink_subset unlinked
      exact ⟨.of_subset (congrArg Array.size files) names, unshared.of_subset names⟩
    next => exact still
  | arrange directories => exact ⟨.of_subset rfl (List.Subset.refl _), unshared⟩

/-! ## Files known by their name -/

/-- The file has this name, or it has none any more. -/
structure GoesBy (v : Volume) (file : Nat) (l : Location) : Prop where
  inside : file < v.files.size
  only : ∀ entry ∈ v.names, entry.2 = file → entry.1 = l

theorem GoesBy.later (known : v.GoesBy file l) (later : v.Later w) : w.GoesBy file l := by
  refine ⟨Nat.lt_of_lt_of_le known.inside later.size, ?_⟩
  intro entry there same
  rcases later.names entry there with old | fresh
  · exact known.only entry old same
  · have := known.inside
    omega

theorem Unshared.goesBy_of_create (unshared : v.Unshared) (created : v.create l = .ok (file, w)) :
    w.GoesBy file l := by
  refine ⟨(create_ok created).2.1, ?_⟩
  have named := mem_names_of_fileAt (create_ok created).1
  intro entry there same
  exact unshared.create created entry there (l, file) named same

/-- **Whoever creates a file under another name creates another file.** -/
theorem GoesBy.ne_of_create {l' : Location} {file' : Nat} (known : v.GoesBy file l)
    (created : v.create l' = .ok (file', w)) (ne : l' ≠ l) : file ≠ file' := by
  rintro rfl
  have named := mem_names_of_fileAt (create_ok created).1
  exact ne ((known.later (create_later created)).only _ named rfl)

end Volume

end BehaviorGraph
