/-!
# A database with a transaction

An open transaction works on a copy of what is committed, and the copy is lost
when the transaction is rolled back.  A statement may be refused, or fail by
itself, or fail and take the transaction it is part of along.
-/

namespace ChronoShare

/-- How the call of a statement that is not refused ends. -/
inductive Ending where
  | done
  | failed
  | rolledBack
  deriving DecidableEq, Repr

def Ending.code : Ending → Nat
  | .done => 0
  | _ => 1

structure WorkingCopy (σ : Type) where
  committed : σ
  working : Option σ
  deriving DecidableEq, Repr

namespace WorkingCopy

variable {σ : Type} (state : WorkingCopy σ)

def view : σ :=
  state.working.getD state.committed

/-- There is no transaction in a transaction. -/
def begin : Option (WorkingCopy σ) :=
  match state.working with
  | none => some { state with working := some state.committed }
  | some _ => none

/-- Outside of a transaction a change is committed at once. -/
def write (change : σ → σ) : Option (WorkingCopy σ) :=
  match state.working with
  | none => some { state with committed := change state.committed }
  | some working => some { state with working := some (change working) }

def commit : Option (WorkingCopy σ) :=
  state.working.map fun working => ⟨working, none⟩

def rollback : Option (WorkingCopy σ) :=
  state.working.map fun _ => ⟨state.committed, none⟩

/-- The result code of a statement and what it leaves behind. -/
def exec (ending : Ending)
    (statement : WorkingCopy σ → Option (WorkingCopy σ)) :
    Nat × WorkingCopy σ :=
  match ending with
  | .done =>
      match statement state with
      | none => (1, state)
      | some target => (0, target)
  | .failed => (1, state)
  | .rolledBack => (1, { state with working := none })

/-- Whatever holds of the committed data and of the copy. -/
def Both (property : σ → Prop) : Prop :=
  property state.committed ∧ ∀ working ∈ state.working, property working

variable {state} {property : σ → Prop}

theorem Both.view (both : state.Both property) : property state.view := by
  obtain ⟨committed, working⟩ := both
  rw [WorkingCopy.view]
  cases copy : state.working with
  | none => exact committed
  | some data => exact working data copy

theorem Both.write (both : state.Both property) {change : σ → σ}
    (kept : property (change state.view)) {target : WorkingCopy σ}
    (written : state.write change = some target) : target.Both property := by
  obtain ⟨committed, working⟩ := both
  rw [WorkingCopy.write] at written
  rw [WorkingCopy.view] at kept
  split at written
  · rename_i closed
    obtain rfl := Option.some.inj written
    rw [closed] at kept
    exact ⟨kept, working⟩
  · rename_i copy here
    obtain rfl := Option.some.inj written
    rw [here] at kept
    refine ⟨committed, fun data same => ?_⟩
    obtain rfl := Option.some.inj same
    exact kept

theorem Both.begin (both : state.Both property) {target : WorkingCopy σ}
    (begun : state.begin = some target) : target.Both property := by
  rw [WorkingCopy.begin] at begun
  split at begun
  · obtain rfl := Option.some.inj begun
    refine ⟨both.1, fun data same => ?_⟩
    obtain rfl := Option.some.inj same
    exact both.1
  · cases begun

theorem Both.commit (both : state.Both property) {target : WorkingCopy σ}
    (committed : state.commit = some target) : target.Both property := by
  obtain ⟨working, here, rfl⟩ := Option.map_eq_some_iff.mp committed
  exact ⟨both.2 working here, nofun⟩

theorem Both.rollback (both : state.Both property) {target : WorkingCopy σ}
    (undone : state.rollback = some target) : target.Both property := by
  obtain ⟨working, -, rfl⟩ := Option.map_eq_some_iff.mp undone
  exact ⟨both.1, nofun⟩

/-- What every statement that is carried out keeps is kept however it ends. -/
theorem Both.exec (both : state.Both property)
    {statement : WorkingCopy σ → Option (WorkingCopy σ)}
    (kept : ∀ target, statement state = some target → target.Both property)
    (ending : Ending) : (state.exec ending statement).2.Both property := by
  cases ending with
  | done =>
      rw [WorkingCopy.exec]
      cases done : statement state with
      | none => exact both
      | some target => exact kept target done
  | failed => exact both
  | rolledBack => exact ⟨both.1, nofun⟩

end WorkingCopy

end ChronoShare
