import Mathlib.Data.List.Basic

/-!
# Machines that take one item at a time

A machine consumes items until it gives a verdict, and leaves the items after
that alone.  It may go on with more items where it has none.
-/

namespace ChronoShare

variable {σ α β : Type}

namespace Incremental

/-- The state and the verdict after some items, with the items left alone. -/
def feed (consume : σ → α → σ × Option β) :
    σ → List α → (σ × Option β) × List α
  | state, [] => ((state, none), [])
  | state, item :: items =>
      match consume state item with
      | (next, none) => feed consume next items
      | (next, some verdict) => ((next, some verdict), items)

variable {consume : σ → α → σ × Option β} {state next : σ} {item : α}
  {items rest first second : List α} {verdict : β}

@[simp] theorem feed_nil : feed consume state [] = ((state, none), []) :=
  rfl

theorem feed_cons_none (continues : consume state item = (next, none)) :
    feed consume state (item :: items) = feed consume next items := by
  rw [feed, continues]

theorem feed_cons_some (stops : consume state item = (next, some verdict)) :
    feed consume state (item :: items) = ((next, some verdict), items) := by
  rw [feed, stops]

/-- What stops a machine stops it whatever follows. -/
theorem feed_append_some
    (stopped : feed consume state first = ((next, some verdict), rest)) :
    feed consume state (first ++ second) =
      ((next, some verdict), rest ++ second) := by
  induction first generalizing state with
  | nil => cases stopped
  | cons item items induction =>
      rw [List.cons_append]
      rcases taken : consume state item with ⟨later, - | given⟩
      · rw [feed_cons_none taken] at stopped ⊢
        exact induction stopped
      · rw [feed_cons_some taken] at stopped ⊢
        cases stopped
        rfl

theorem feed_append_none
    (undecided : feed consume state first = ((next, none), rest)) :
    feed consume state (first ++ second) = feed consume next second := by
  induction first generalizing state with
  | nil =>
      cases undecided
      rfl
  | cons item items induction =>
      rw [List.cons_append]
      rcases taken : consume state item with ⟨later, - | given⟩
      · rw [feed_cons_none taken] at undecided ⊢
        exact induction undecided
      · rw [feed_cons_some taken] at undecided
        cases undecided

theorem rest_of_none
    (undecided : feed consume state items = ((next, none), rest)) :
    rest = [] := by
  induction items generalizing state with
  | nil =>
      cases undecided
      rfl
  | cons item items induction =>
      rcases taken : consume state item with ⟨later, - | given⟩
      · rw [feed_cons_none taken] at undecided
        exact induction undecided
      · rw [feed_cons_some taken] at undecided
        cases undecided

theorem exists_item_of_some
    (stopped : feed consume state items = ((next, some verdict), rest)) :
    ∃ before item middle, items = before ++ item :: rest ∧
      feed consume state before = ((middle, none), []) ∧
      consume middle item = (next, some verdict) := by
  induction items generalizing state with
  | nil => cases stopped
  | cons item items induction =>
      rcases taken : consume state item with ⟨later, - | given⟩
      · rw [feed_cons_none taken] at stopped
        obtain ⟨before, last, middle, rfl, undecided, stops⟩ :=
          induction stopped
        refine ⟨item :: before, last, middle, rfl, ?_, stops⟩
        rw [feed_cons_none taken]
        exact undecided
      · rw [feed_cons_some taken] at stopped
        cases stopped
        exact ⟨[], item, state, rfl, rfl, taken⟩

theorem feed_collect (state : List α → σ) {condition : α → Prop}
    (step : ∀ collected item, condition item →
      consume (state collected) item = (state (collected ++ [item]), none))
    (collected : List α) (conditions : ∀ item ∈ items, condition item) :
    feed consume (state collected) (items ++ rest) =
      feed consume (state (collected ++ items)) rest := by
  induction items generalizing collected with
  | nil => rw [List.nil_append, List.append_nil]
  | cons item items induction =>
      obtain ⟨here, later⟩ := List.forall_mem_cons.mp conditions
      rw [List.cons_append, feed_cons_none (step collected item here),
        induction _ later, List.append_assoc]
      rfl

/-- An invariant of what has been consumed. -/
theorem feed_invariant {invariant : σ → List α → Prop} {before : List α}
    (preserved : ∀ state next consumed item,
      consume state item = (next, none) → invariant state consumed →
        invariant next (consumed ++ [item]))
    (holds : invariant state before)
    (undecided : feed consume state items = ((next, none), rest)) :
    invariant next (before ++ items) := by
  induction items generalizing state before with
  | nil =>
      cases undecided
      rwa [List.append_nil]
  | cons item items induction =>
      rcases taken : consume state item with ⟨later, - | given⟩
      · rw [feed_cons_none taken] at undecided
        have step := induction (preserved state later before item taken holds)
          undecided
        rwa [List.append_assoc] at step
      · rw [feed_cons_some taken] at undecided
        cases undecided

end Incremental

end ChronoShare
