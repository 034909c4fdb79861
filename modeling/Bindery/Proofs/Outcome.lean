import Mathlib.Data.List.Forall2

/-!
# Outcomes of steps that may fail

A computation that succeeds is taken apart into the steps that it is made of.
-/

namespace Bindery.Outcome

variable {ε δ α β γ : Type}

/-- Two steps in a row succeed exactly if both do. -/
theorem bind_eq_ok_iff {first : Except ε α} {next : α → Except ε β} {result : β} :
    (first >>= next) = .ok result ↔ ∃ value, first = .ok value ∧ next value = .ok result := by
  cases first with
  | error error => simp [bind, Except.bind]
  | ok value => simp [bind, Except.bind]

/-- Two steps in a row fail where the first of them to fail does. -/
theorem bind_eq_error_iff {first : Except ε α} {next : α → Except ε β} {error : ε} :
    (first >>= next) = .error error ↔
      first = .error error ∨ ∃ value, first = .ok value ∧ next value = .error error := by
  cases first with
  | error other => simp [bind, Except.bind]
  | ok value => simp [bind, Except.bind]

/-- A result that is only passed on adds no failure. -/
theorem bind_pure_eq_error_iff {first : Except ε α} {f : α → β} {error : ε} :
    (first >>= fun value => pure (f value)) = .error error ↔ first = .error error := by
  rw [bind_eq_error_iff]
  simp [pure, Except.pure]

/-- Rewording an error changes no success. -/
@[simp]
theorem mapError_eq_ok_iff {wrap : ε → δ} {outcome : Except ε α} {value : α} :
    outcome.mapError wrap = .ok value ↔ outcome = .ok value := by
  cases outcome <;> simp [Except.mapError]

/-- A result that is only passed on through a function. -/
theorem map_eq_ok_iff {f : α → β} {outcome : Except ε α} {result : β} :
    outcome.map f = .ok result ↔ ∃ value, outcome = .ok value ∧ f value = result := by
  cases outcome <;> simp [Except.map]

@[simp]
theorem pure_eq_ok_iff {first second : α} :
    (pure first : Except ε α) = .ok second ↔ first = second := by
  simp [pure, Except.pure]

theorem toOption_eq_some_iff {outcome : Except ε α} {value : α} :
    outcome.toOption = some value ↔ outcome = .ok value := by
  cases outcome <;> simp [Except.toOption]

theorem toOption_mapError (wrap : ε → δ) (outcome : Except ε α) :
    (outcome.mapError wrap).toOption = outcome.toOption := by
  cases outcome <;> rfl

/-- A check in front of a computation has to pass. -/
theorem guard_eq_ok_iff {refused : Prop} [Decidable refused] {error : ε} {next : Except ε α}
    {result : α} :
    (if refused then (throw error >>= fun (_ : PUnit) => next) else next) = .ok result ↔
      ¬ refused ∧ next = .ok result := by
  by_cases holds : refused
  · simp [holds, throw, throwThe, MonadExceptOf.throw, bind, Except.bind]
  · simp [holds]

/-- A traversal succeeds exactly if every item does, and then yields what the
items came to, in order. -/
theorem mapM_eq_ok_iff {step : α → Except ε β} {items : List α} {results : List β} :
    items.mapM step = .ok results ↔
      List.Forall₂ (fun item result => step item = .ok result) items results := by
  induction items generalizing results with
  | nil =>
      rw [List.mapM_nil, pure_eq_ok_iff, List.forall₂_nil_left_iff]
      exact eq_comm
  | cons item items ih =>
      rw [List.mapM_cons, bind_eq_ok_iff, List.forall₂_cons_left_iff]
      constructor
      · rintro ⟨result, done, rest⟩
        obtain ⟨others, restDone, same⟩ := bind_eq_ok_iff.mp rest
        exact ⟨result, others, done, ih.mp restDone, (pure_eq_ok_iff.mp same).symm⟩
      · rintro ⟨result, others, done, restDone, rfl⟩
        exact ⟨result, done, bind_eq_ok_iff.mpr ⟨others, ih.mpr restDone, rfl⟩⟩

/-- A traversal that fails has failed on one of the items. -/
theorem exists_of_mapM_eq_error {step : α → Except ε β} {items : List α} {error : ε}
    (failed : items.mapM step = .error error) : ∃ item ∈ items, step item = .error error := by
  induction items with
  | nil => cases failed
  | cons item items ih =>
      rw [List.mapM_cons, bind_eq_error_iff] at failed
      rcases failed with itemFailed | ⟨result, -, restFailed⟩
      · exact ⟨item, List.mem_cons_self, itemFailed⟩
      · obtain ⟨other, member, otherFailed⟩ := ih (bind_pure_eq_error_iff.mp restFailed)
        exact ⟨other, List.mem_cons_of_mem item member, otherFailed⟩

/-- In lists that correspond item by item, every item on the right has its
counterpart on the left. -/
theorem exists_of_mem_right {R : α → β → Prop} {items : List α} {results : List β}
    (related : List.Forall₂ R items results) {result : β} (member : result ∈ results) :
    ∃ item ∈ items, R item result := by
  induction related with
  | nil => cases member
  | @cons item first items results pair _ ih =>
      rcases List.mem_cons.mp member with rfl | member
      · exact ⟨item, List.mem_cons_self, pair⟩
      · obtain ⟨other, otherMember, otherPair⟩ := ih member
        exact ⟨other, List.mem_cons_of_mem item otherMember, otherPair⟩

/-- Results that can be had again one by one, with the same view of each, can be had again
as a list. -/
theorem exists_forall₂_of_step {R S : α → β → Prop} {view : β → γ} {items : List α}
    {results : List β} (related : List.Forall₂ R items results)
    (step : ∀ item result, R item result → ∃ again, S item again ∧ view again = view result) :
    ∃ again, List.Forall₂ S items again ∧ again.map view = results.map view := by
  induction related with
  | nil => exact ⟨[], .nil, rfl⟩
  | @cons item result items results pair _ ih =>
      rcases step item result pair with ⟨first, firstHolds, firstView⟩
      rcases ih with ⟨others, othersHold, othersView⟩
      refine ⟨first :: others, .cons firstHolds othersHold, ?_⟩
      rw [List.map_cons, List.map_cons, firstView, othersView]

/-- If the computation fails, it does so with an error of this kind. -/
def FailsOnly (kind : ε → Prop) (outcome : Except ε α) : Prop :=
  ∀ error, outcome = .error error → kind error

section FailsOnly

variable {kind : ε → Prop}

theorem failsOnly_ok (value : α) : FailsOnly kind (.ok value) := by
  rintro _ ⟨⟩

theorem failsOnly_error {error : ε} (known : kind error) :
    FailsOnly kind (.error error : Except ε α) := by
  rintro _ ⟨⟩
  exact known

theorem FailsOnly.bind {first : Except ε α} {next : α → Except ε β}
    (firstOnly : FailsOnly kind first) (nextOnly : ∀ value, FailsOnly kind (next value)) :
    FailsOnly kind (first >>= next) := by
  intro error failed
  rcases bind_eq_error_iff.mp failed with firstFailed | ⟨value, -, nextFailed⟩
  · exact firstOnly error firstFailed
  · exact nextOnly value error nextFailed

/-- The kind of a reworded error is known from that of the error. -/
theorem FailsOnly.mapError {wrap : δ → ε} {outcome : Except δ α}
    (only : FailsOnly (fun error => kind (wrap error)) outcome) :
    FailsOnly kind (outcome.mapError wrap) := by
  intro error failed
  cases outcome with
  | error cause =>
      cases failed
      exact only cause rfl
  | ok value => cases failed

end FailsOnly

end Bindery.Outcome
