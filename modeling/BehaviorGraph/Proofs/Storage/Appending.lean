import BehaviorGraph.Proofs.Storage.Writing
import BehaviorGraph.Storage.Appender

/-!
# The stream of an appender

What was given to an appender is the content of its file followed by its buffer. No step moves a
byte within this stream: emptying the buffer leaves it as it is, and adding bytes lengthens it, by
all of them or, if a call fails, by a front part of them.

* `Appender.stream`, `Appender.Appended`: the stream and a step that lengthens it;
* `Appender.flush_cases`, `Appender.place_cases`, **`Appender.put_cases`**;
* `Appender.Stores`, `Appender.Stores.flush_cases`, **`Appender.cutBack_cases`**: a torn end is cut
  off, or the file starts with what is kept at least.
-/

namespace BehaviorGraph

namespace Appender

variable {a : Appender} {v : Volume}

/-- The bytes of the file with those that wait behind them. -/
def stream (a : Appender) (v : Volume) : List UInt8 := v.content a.handle.file ++ a.pending

/-- A step at the end of the file that adds `more` to the stream. -/
structure Appended (a : Appender) (v : Volume) (more : List UInt8) (a' : Appender)
    (v' : Volume) : Prop where
  moved : a.handle.Moved v a'.handle v'
  stream : a'.stream v' = a.stream v ++ more

theorem Appended.after {more : List UInt8} {a' a'' : Appender} {v' v'' : Volume}
    (first : Appended a v [] a' v') (second : Appended a' v' more a'' v'') :
    Appended a v more a'' v'' :=
  ⟨first.moved.trans second.moved, by rw [second.stream, first.stream, List.append_nil]⟩

/-! ## Emptying the buffer -/

theorem flush_nil (empty : a.pending = []) : a.flush v = (.ok (), a, v) := by
  obtain ⟨h, capacity, _⟩ := a
  subst empty
  rw [flush, pour]
  rfl

theorem flush_cases (atEnd : a.handle.AtEnd v) :
    (∃ a' v', a.flush v = (.ok (), a', v') ∧ Appended a v [] a' v' ∧ a'.pending = []) ∨
    ∃ fault a' v', a.flush v = (.error fault, a', v') ∧ Appended a v [] a' v' ∧
      ¬ v.medium.Unfailing := by
  obtain ⟨stored, h', v', halt, poured, -, all, whole, moved, content⟩ :=
    Handle.pour_write a.pending atEnd
  have appended : Appended a v [] { a with handle := h', pending := a.pending.drop stored } v' := by
    refine ⟨moved, ?_⟩
    simp only [stream]
    rw [moved.file, content, List.append_assoc, List.take_append_drop, List.append_nil]
  simp only [flush, poured, Poured.outcome]
  rcases halt with _ | _ | _
  · exact .inl ⟨_, v', rfl, appended, by rw [all rfl, List.drop_length]⟩
  · exact .inr ⟨_, _, v', rfl, appended, fun unfailing => nomatch whole unfailing⟩
  · exact .inr ⟨_, _, v', rfl, appended, fun unfailing => nomatch whole unfailing⟩

/-! ## Adding bytes -/

/-- What goes straight to the file finds an empty buffer, unless it is nothing at all. -/
theorem place_cases {bytes : List UInt8} (atEnd : a.handle.AtEnd v)
    (room : a.pending = [] ∨ bytes.length ≤ a.spare) :
    (∃ a' v', a.place v bytes = (.ok (), a', v') ∧ Appended a v bytes a' v') ∨
    ∃ fault torn a' v', a.place v bytes = (.error fault, a', v') ∧ torn <+: bytes ∧
      Appended a v torn a' v' ∧ (torn = [] ∨ a'.pending = []) ∧ ¬ v.medium.Unfailing := by
  rw [place]
  by_cases large : a.capacity ≤ bytes.length
  · rw [if_pos large, Handle.put]
    obtain ⟨stored, h', v', halt, poured, -, all, whole, moved, content⟩ :=
      Handle.pour_write bytes atEnd
    -- bytes that fill the whole buffer have room in it only if nothing else is there
    have direct : a.pending = [] ∨ bytes = [] := by
      rcases room with empty | fits
      · exact .inl empty
      · rw [spare] at fits
        by_cases none : bytes = []
        · exact .inr none
        · have := List.length_pos_iff.2 none
          exact .inl (List.eq_nil_of_length_eq_zero (by omega))
    have appended : Appended a v (bytes.take stored) { a with handle := h' } v' := by
      refine ⟨moved, ?_⟩
      simp only [stream]
      rw [moved.file, content]
      rcases direct with empty | none
      · rw [empty, List.append_nil, List.append_nil]
      · rw [none, List.take_nil, List.append_nil, List.append_nil]
    have torn : bytes.take stored = [] ∨ a.pending = [] := by
      rcases direct with empty | none
      · exact .inr empty
      · rw [none]
        exact .inl List.take_nil
    simp only [poured, Poured.outcome]
    rcases halt with _ | _ | _
    · rw [all rfl, List.take_length] at appended
      exact .inl ⟨_, v', rfl, appended⟩
    · exact .inr ⟨_, _, _, v', rfl, List.take_prefix _ _, appended, torn,
        fun unfailing => nomatch whole unfailing⟩
    · exact .inr ⟨_, _, _, v', rfl, List.take_prefix _ _, appended, torn,
        fun unfailing => nomatch whole unfailing⟩
  · rw [if_neg large]
    refine .inl ⟨_, v, rfl, .refl atEnd, ?_⟩
    simp only [stream, List.append_assoc]

/-- **Bytes are added to the stream, all of them or, with an error, a front part. The buffer is
empty after an error unless nothing was added.** -/
theorem put_cases (bytes : List UInt8) (atEnd : a.handle.AtEnd v) :
    (∃ a' v', a.put v bytes = (.ok (), a', v') ∧ Appended a v bytes a' v') ∨
    ∃ fault torn a' v', a.put v bytes = (.error fault, a', v') ∧ torn <+: bytes ∧
      Appended a v torn a' v' ∧ (torn = [] ∨ a'.pending = []) ∧ ¬ v.medium.Unfailing := by
  rw [put]
  by_cases full : a.spare < bytes.length
  · rw [if_pos full]
    rcases flush_cases atEnd with ⟨a', v', flushed, appended, empty⟩ |
      ⟨fault, a', v', flushed, appended, failing⟩
    · simp only [flushed]
      rcases place_cases appended.moved.atEnd (.inl empty) with ⟨a'', v'', placed, appended'⟩ |
        ⟨fault, torn, a'', v'', placed, front, appended', split, failing⟩
      · exact .inl ⟨a'', v'', placed, appended.after appended'⟩
      · rw [appended.moved.same.medium] at failing
        exact .inr ⟨fault, torn, a'', v'', placed, front, appended.after appended', split, failing⟩
    · simp only [flushed]
      exact .inr ⟨fault, [], a', v', rfl, List.nil_prefix, appended, .inl rfl, failing⟩
  · rw [if_neg full]
    exact place_cases atEnd (.inr (Nat.le_of_not_lt full))

/-! ## What is kept -/

/-- The stream is `kept`. The file of a broken appender, to which nothing is added any more, may also
go on after `kept`. -/
inductive Stores (a : Appender) (v : Volume) (kept : List UInt8) : (broken : Bool) → Prop
  | whole {broken : Bool} : a.handle.AtEnd v → a.stream v = kept → Stores a v kept broken
  | front : a.pending = [] → kept <+: v.content a.handle.file → Stores a v kept true

theorem Stores.idle {w : Volume} {kept : List UInt8} {broken : Bool}
    (stored : a.Stores v kept broken) (idle : v.Idle w) : a.Stores w kept broken := by
  have content := idle.content a.handle.file
  cases stored with
  | whole atEnd stream =>
    refine .whole ⟨Nat.lt_of_lt_of_eq atEnd.file_lt idle.same.size.symm, ?_⟩ ?_
    · rw [content, atEnd.cursor_eq]
    · rw [← stream, Appender.stream, Appender.stream, content]
  | front empty front => exact .front empty (content ▸ front)

theorem Stores.flush_cases {kept : List UInt8} {broken : Bool} (stored : a.Stores v kept broken) :
    (∃ a' v', a.flush v = (.ok (), a', v') ∧ a'.handle.file = a.handle.file ∧ v.SameFiles v' ∧
      a'.Stores v' kept broken ∧ kept <+: v'.content a.handle.file) ∨
    ∃ fault a' v', a.flush v = (.error fault, a', v') ∧ a'.handle.file = a.handle.file ∧
      v.SameFiles v' ∧ a'.Stores v' kept broken ∧ ¬ v.medium.Unfailing := by
  cases stored with
  | whole atEnd stream =>
    rcases Appender.flush_cases atEnd with ⟨a', v', flushed, ⟨moved, stream'⟩, empty⟩ |
      ⟨fault, a', v', flushed, ⟨moved, stream'⟩, failing⟩
    · rw [List.append_nil, stream] at stream'
      have content := stream'
      rw [Appender.stream, empty, List.append_nil, moved.file] at content
      exact .inl ⟨a', v', flushed, moved.file, moved.same, .whole moved.atEnd stream',
        content ▸ List.prefix_refl _⟩
    · rw [List.append_nil, stream] at stream'
      exact .inr ⟨fault, a', v', flushed, moved.file, moved.same, .whole moved.atEnd stream',
        failing⟩
  | front empty front =>
    exact .inl ⟨a, v, flush_nil empty, rfl, .refl v, .front empty front, front⟩

/-- **What follows `kept` in the stream is cut off. If that fails, the file starts with `kept` at
least, unless `kept` is the stream all the same.** -/
theorem cutBack_cases {kept torn : List UInt8} (atEnd : a.handle.AtEnd v)
    (split : a.stream v = kept ++ torn) (whole : torn = [] ∨ a.pending = []) :
    (∃ a' v', a.cutBack v kept.length = (.ok (), a', v') ∧ a'.handle.file = a.handle.file ∧
      v.SameFiles v' ∧ a'.Stores v' kept false) ∨
    ∃ fault a' v', a.cutBack v kept.length = (.error fault, a', v') ∧
      a'.handle.file = a.handle.file ∧ v.SameFiles v' ∧ a'.Stores v' kept true := by
  rw [cutBack]
  rcases flush_cases atEnd with ⟨a', v', flushed, ⟨moved, stream⟩, empty⟩ |
    ⟨fault, a', v', flushed, ⟨moved, stream⟩, -⟩
  · simp only [flushed]
    rw [List.append_nil, split, Appender.stream, empty, List.append_nil] at stream
    rcases Handle.truncateTo_cases moved.atEnd stream with ⟨h'', v'', cut, moved', content⟩ |
      ⟨fault, h'', v'', cut, file, same, front⟩
    · simp only [cut]
      refine .inl ⟨_, v'', rfl, moved'.file.trans moved.file, moved.same.trans moved'.same,
        .whole moved'.atEnd ?_⟩
      rw [Appender.stream, empty, moved'.file, content, List.append_nil]
    · simp only [cut]
      exact .inr ⟨fault, _, v'', rfl, file.trans moved.file, moved.same.trans same,
        .front empty (file ▸ front)⟩
  · simp only [flushed]
    refine .inr ⟨fault, a', v', rfl, moved.file, moved.same, .whole moved.atEnd ?_⟩
    -- with an empty buffer there was nothing to write, so it is not the flush that failed
    rcases whole with none | empty
    · rw [stream, split, none, List.append_nil, List.append_nil]
    · cases (flush_nil empty).symm.trans flushed

end Appender

end BehaviorGraph
