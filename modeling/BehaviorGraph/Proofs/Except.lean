/-!
# Results that may be errors

What is known of the steps of a computation once the whole of it has a result, and of a question
that is asked of each in a list, up to the first that is not answered with yes.

* `exists_of_bind_ok`, `exists_of_map_ok`, `eq_of_checked`: a step, and a check;
* `allM_cases`: how far the question is asked;
* `allM_eq_true_iff`, `allM_eq_false_iff`, `allM_eq_error_iff`, `allM_ok`: the condition for each
  answer.
-/

namespace BehaviorGraph

variable {ε α β : Type}

/-! ## Steps and checks -/

theorem exists_of_bind_ok {x : Except ε α} {f : α → Except ε β} {b : β}
    (h : (x >>= f) = .ok b) : ∃ a, x = .ok a ∧ f a = .ok b := by
  cases x with
  | error e => cases h
  | ok a => exact ⟨a, rfl, h⟩

theorem exists_of_map_ok {x : Except ε α} {f : α → β} {b : β}
    (h : x.map f = .ok b) : ∃ a, x = .ok a ∧ f a = b := by
  cases x with
  | error e => cases h
  | ok a => exact ⟨a, rfl, Except.ok.inj h⟩

theorem eq_of_checked {p : Prop} [Decidable p] {x y : α} {e : ε}
    (h : (if p then .ok x else .error e : Except ε α) = .ok y) : y = x := by
  split at h
  · exact (Except.ok.inj h).symm
  · cases h

/-! ## Questions asked in turn -/

variable {ask : α → Except ε Bool} {a : α} {as front : List α}

theorem allM_cons_true (yes : ask a = .ok true) : (a :: as).allM ask = as.allM ask := by
  rw [List.allM, yes]
  rfl

theorem allM_cons_of_ne (other : ask a ≠ .ok true) : (a :: as).allM ask = ask a := by
  rw [List.allM]
  cases answer : ask a with
  | error e => rfl
  | ok holds =>
    cases holds with
    | false => rfl
    | true => exact absurd answer other

theorem allM_append (yes : ∀ b ∈ front, ask b = .ok true) :
    (front ++ as).allM ask = as.allM ask := by
  induction front with
  | nil => rfl
  | cons b front ih =>
    obtain ⟨first, others⟩ := List.forall_mem_cons.1 yes
    rw [List.cons_append, allM_cons_true first, ih others]

/-- The answers to a question asked of each in turn: all are yes, or the first that is not is the
answer. -/
theorem allM_cases (ask : α → Except ε Bool) (as : List α) :
    ((∀ a ∈ as, ask a = .ok true) ∧ as.allM ask = .ok true) ∨
      ∃ front a back, as = front ++ a :: back ∧ (∀ b ∈ front, ask b = .ok true) ∧
        ask a ≠ .ok true ∧ as.allM ask = ask a := by
  induction as with
  | nil => exact .inl ⟨by simp, rfl⟩
  | cons a as ih =>
    by_cases yes : ask a = .ok true
    · rw [allM_cons_true yes]
      obtain ⟨all, answer⟩ | ⟨front, b, back, rfl, before, other, answer⟩ := ih
      · exact .inl ⟨List.forall_mem_cons.2 ⟨yes, all⟩, answer⟩
      · exact .inr ⟨a :: front, b, back, rfl, List.forall_mem_cons.2 ⟨yes, before⟩, other, answer⟩
    · exact .inr ⟨[], a, as, rfl, by simp, yes, allM_cons_of_ne yes⟩

theorem allM_eq_true_iff : as.allM ask = .ok true ↔ ∀ a ∈ as, ask a = .ok true := by
  constructor
  · intro answer
    obtain ⟨all, -⟩ | ⟨front, a, back, -, -, other, first⟩ := allM_cases ask as
    · exact all
    · exact absurd (first.symm.trans answer) other
  · intro all
    rw [← List.append_nil as, allM_append all]
    rfl

/-- The question is answered with no exactly if it is answered with no somewhere, and before that with
yes or no. -/
theorem allM_eq_false_iff : as.allM ask = .ok false ↔
    ∃ front a back, as = front ++ a :: back ∧ (∀ b ∈ front, ∃ holds, ask b = .ok holds) ∧
      ask a = .ok false := by
  constructor
  · intro answer
    obtain ⟨-, all⟩ | ⟨front, a, back, split, before, -, first⟩ := allM_cases ask as
    · cases all.symm.trans answer
    · exact ⟨front, a, back, split, fun b there => ⟨true, before b there⟩, first.symm.trans answer⟩
  · rintro ⟨front, a, back, rfl, answered, no⟩
    induction front with
    | nil =>
      rw [List.nil_append, allM_cons_of_ne (by simp [no]), no]
    | cons b front ih =>
      obtain ⟨⟨holds, first⟩, others⟩ := List.forall_mem_cons.1 answered
      rw [List.cons_append]
      cases holds with
      | false => rw [allM_cons_of_ne (by simp [first]), first]
      | true => rw [allM_cons_true first, ih others]

/-- The question fails exactly if it fails somewhere, and before that is answered with yes. -/
theorem allM_eq_error_iff {e : ε} : as.allM ask = .error e ↔
    ∃ front a back, as = front ++ a :: back ∧ (∀ b ∈ front, ask b = .ok true) ∧
      ask a = .error e := by
  constructor
  · intro failed
    obtain ⟨-, all⟩ | ⟨front, a, back, split, before, -, first⟩ := allM_cases ask as
    · cases all.symm.trans failed
    · exact ⟨front, a, back, split, before, first.symm.trans failed⟩
  · rintro ⟨front, a, back, rfl, before, failed⟩
    rw [allM_append before, allM_cons_of_ne (by simp [failed]), failed]

theorem allM_ok {f : α → Bool} (answers : ∀ a ∈ as, ask a = .ok (f a)) :
    as.allM ask = .ok (as.all f) := by
  induction as with
  | nil => rfl
  | cons a as ih =>
    obtain ⟨first, others⟩ := List.forall_mem_cons.1 answers
    rw [List.all_cons]
    cases holds : f a with
    | false =>
      rw [allM_cons_of_ne (by simp [first, holds]), first, holds]
      rfl
    | true =>
      rw [allM_cons_true (by rw [first, holds]), ih others]
      rfl

end BehaviorGraph
