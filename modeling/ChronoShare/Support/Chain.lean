import Mathlib.Data.Fintype.Card
import Mathlib.Data.Set.Finite.List
import Mathlib.Logic.Relation

/-!
# Chains of successors

Every value has at most one successor.  Where only finitely many values are
successors, a chain ends or comes back to a value.
-/

namespace ChronoShare

namespace Chain

variable {α : Type} (next : α → Option α)

def Step (value successor : α) : Prop :=
  next value = some successor

inductive Ends : α → Prop where
  | last {value : α} : next value = none → Ends value
  | step {value successor : α} : next value = some successor →
      Ends successor → Ends value

/-- The chain comes to a value that follows itself. -/
def Loops (value : α) : Prop :=
  ∃ again, Relation.ReflTransGen (Step next) value again ∧
    Relation.TransGen (Step next) again again

variable {next} {value : α}

theorem Loops.successor (loops : Loops next value) :
    ∃ successor, next value = some successor ∧ Loops next successor := by
  obtain ⟨again, reached, cycle⟩ := loops
  rcases Relation.ReflTransGen.cases_head reached with rfl | ⟨_, first, rest⟩
  · obtain ⟨successor, first, rest⟩ := Relation.TransGen.head'_iff.mp cycle
    exact ⟨successor, first, value, rest, cycle⟩
  · exact ⟨_, first, again, rest, cycle⟩

theorem Ends.not_loops (ends : Ends next value) : ¬ Loops next value := by
  induction ends with
  | last none =>
      intro loops
      obtain ⟨_, some, -⟩ := loops.successor
      rw [none] at some
      cases some
  | step following _ induction =>
      intro loops
      obtain ⟨successor, same, rest⟩ := loops.successor
      obtain rfl := Option.some.inj (following.symm.trans same)
      exact induction rest

theorem ends_iff_not_loops {values : List α}
    (finite : ∀ value successor, next value = some successor →
      successor ∈ values) :
    Ends next value ↔ ¬ Loops next value := by
  refine ⟨Ends.not_loops, fun straight => ?_⟩
  let reached := { successor | successor ∈ values ∧
    Relation.ReflTransGen (Step next) value successor }
  let before := fun later earlier : reached =>
    Relation.TransGen (Step next) earlier.1 later.1
  have finitely : Finite reached :=
    ((List.finite_toSet values).subset fun _ member => member.1).to_subtype
  have transitive : IsTrans reached before :=
    ⟨fun _ _ _ left right => right.trans left⟩
  have irreflexive : Std.Irrefl before :=
    ⟨fun successor cycle => straight ⟨successor.1, successor.2.2, cycle⟩⟩
  have wellFounded : WellFounded before :=
    Finite.wellFounded_of_trans_of_irrefl before
  have later : ∀ successor : reached, Ends next successor.1 := by
    intro successor
    induction successor using wellFounded.induction with
    | _ successor induction =>
      cases following : next successor.1 with
      | none => exact .last following
      | some further =>
          have inside : further ∈ reached :=
            ⟨finite _ _ following, successor.2.2.tail following⟩
          exact .step following
            (induction ⟨further, inside⟩ (.single following))
  cases following : next value with
  | none => exact .last following
  | some successor =>
      exact .step following
        (later ⟨successor, finite _ _ following, .single following⟩)

end Chain

end ChronoShare
