import Mathlib.Data.List.Basic

/-!
# A table with a transaction

Rows are only added.  An open transaction keeps the rows it has added apart
from the committed ones, and loses them when it is rolled back or when the
process ends.  A statement may fail by itself, or with the transaction it is
part of.
-/

namespace ChronoShare

/-- How the execution of a statement ends.  A statement that is not prepared is
not executed, and after a crash nothing is. -/
inductive Outcome where
  | done
  | unprepared
  | failed
  | rolledBack
  | crashed
  deriving DecidableEq, Repr

/-- The committed rows, with those that an open transaction has added. -/
structure TransactionTable (row : Type) where
  committed : List row
  added : Option (List row)
  deriving DecidableEq

namespace TransactionTable

variable {row : Type} (table : TransactionTable row)

def view : List row :=
  table.committed ++ table.added.getD []

/-- There is no transaction in a transaction. -/
def begin : TransactionTable row :=
  { table with added := some (table.added.getD []) }

/-- Outside of a transaction a row is committed at once. -/
def insert (new : row) (conflict : Bool) : TransactionTable row :=
  if conflict then
    table
  else
    match table.added with
    | none => { table with committed := table.committed ++ [new] }
    | some rows => { table with added := some (rows ++ [new]) }

def commit : TransactionTable row :=
  ⟨table.view, none⟩

def rollback : TransactionTable row :=
  { table with added := none }

/-- The effect of a statement, by the way it ends. -/
def perform (outcome : Outcome)
    (effect : TransactionTable row → TransactionTable row) :
    TransactionTable row :=
  match outcome with
  | .done => effect table
  | .rolledBack => table.rollback
  | .unprepared | .failed | .crashed => table

variable {table}

theorem committed_subset_view : table.committed ⊆ table.view :=
  List.subset_append_left _ _

@[simp] theorem committed_rollback :
    table.rollback.committed = table.committed := rfl

@[simp] theorem view_rollback : table.rollback.view = table.committed :=
  List.append_nil _

@[simp] theorem committed_begin : table.begin.committed = table.committed := rfl

@[simp] theorem view_begin : table.begin.view = table.view := rfl

@[simp] theorem committed_commit : table.commit.committed = table.view := rfl

@[simp] theorem view_commit : table.commit.view = table.view :=
  List.append_nil _

theorem view_of_closed (closed : table.added = none) :
    table.view = table.committed := by
  rw [view, closed]
  exact List.append_nil _

theorem committed_perform_id (outcome : Outcome) :
    (table.perform outcome id).committed = table.committed := by
  cases outcome <;> rfl

theorem view_perform_id (outcome : Outcome) :
    (table.perform outcome id).view =
      if outcome = .rolledBack then table.committed else table.view := by
  cases outcome
  case rolledBack => exact view_rollback
  all_goals rfl

theorem committed_perform_commit (outcome : Outcome) :
    (table.perform outcome commit).committed =
      if outcome = .done then table.view else table.committed := by
  cases outcome <;> rfl

section Insertion

variable {new : row} {conflict : Bool} {wanted : row → Prop}

theorem exists_committed_insert (found : wanted new)
    (conflicting : conflict = true → ∃ old ∈ table.view, wanted old)
    (outcome : Outcome) :
    (∃ old ∈ (table.perform outcome (·.insert new conflict)).committed,
        wanted old) ↔
      (∃ old ∈ table.committed, wanted old) ∨
        table.added = none ∧ outcome = .done := by
  cases outcome
  case done =>
    cases opened : table.added with
    | none =>
        rw [view_of_closed opened] at conflicting
        simp only [perform, insert, opened]
        split_ifs with conflicts
        · simpa using conflicting conflicts
        · simp [found]
    | some rows =>
        simp only [perform, insert, opened]
        split_ifs <;> simp
  all_goals simp [perform]

theorem exists_view_insert (found : wanted new)
    (conflicting : conflict = true → ∃ old ∈ table.view, wanted old)
    (outcome : Outcome) :
    (∃ old ∈ (table.perform outcome (·.insert new conflict)).view,
        wanted old) ↔
      outcome = .done ∨ (∃ old ∈ table.committed, wanted old) ∨
        outcome ≠ .rolledBack ∧ ∃ old ∈ table.view, wanted old := by
  have grows : (∃ old ∈ table.committed, wanted old) →
      ∃ old ∈ table.view, wanted old := by
    rintro ⟨old, stored, isWanted⟩
    exact ⟨old, committed_subset_view stored, isWanted⟩
  cases outcome
  case done =>
    simp only [perform, insert]
    split_ifs with conflicts
    · simpa using conflicting conflicts
    · refine iff_of_true ?_ (.inl trivial)
      refine ⟨new, ?_, found⟩
      cases table.added <;> simp [view]
  case rolledBack => simp [perform]
  all_goals simpa [perform] using grows

end Insertion

end TransactionTable

end ChronoShare
