import Mathlib.Data.List.Induction

/-!
# Keys that outlive a history

Events add and remove keys.  A key outlives a history when it is added by an
event after which none removes it.  A set that changes with every event as the
events say holds, after the history, the keys that outlive it.
-/

namespace ChronoShare

variable {ε κ σ : Type} {adds removes : ε → κ → Prop}

def Outlives (adds removes : ε → κ → Prop) (events : List ε) (key : κ) :
    Prop :=
  ∃ earlier event later, events = earlier ++ event :: later ∧
    adds event key ∧ ∀ other ∈ later, ¬ removes other key

theorem not_outlives_nil (key : κ) : ¬ Outlives adds removes [] key := by
  intro found
  obtain ⟨earlier, event, later, split, -⟩ := found
  simp at split

theorem outlives_snoc {events : List ε} {event : ε} {key : κ} :
    Outlives adds removes (events ++ [event]) key ↔
      adds event key ∨ (Outlives adds removes events key ∧
        ¬ removes event key) := by
  constructor
  · intro found
    obtain ⟨earlier, added, later, split, isAdded, kept⟩ := found
    cases later using List.reverseRecOn with
    | nil =>
        obtain ⟨-, same⟩ := List.append_inj' split rfl
        rw [List.singleton_inj.mp same]
        exact Or.inl isAdded
    | append_singleton later last =>
        rw [← List.cons_append, ← List.append_assoc] at split
        obtain ⟨sameEvents, sameLast⟩ := List.append_inj' split rfl
        rw [List.forall_mem_append, List.forall_mem_singleton] at kept
        rw [List.singleton_inj.mp sameLast]
        exact Or.inr ⟨⟨earlier, added, later, sameEvents, isAdded, kept.1⟩,
          kept.2⟩
  · intro either
    rcases either with isAdded | ⟨⟨earlier, added, later, rfl, isAdded, kept⟩, last⟩
    · exact ⟨events, event, [], rfl, isAdded, by simp⟩
    · refine ⟨earlier, added, later ++ [event], by simp, isAdded, ?_⟩
      rw [List.forall_mem_append, List.forall_mem_singleton]
      exact ⟨kept, last⟩

/-- A state that changes as the events say holds the keys that outlive
them. -/
theorem holds_foldl_iff {holds : σ → κ → Prop} {apply : σ → ε → σ}
    {start : σ} (initial : ∀ key, ¬ holds start key)
    (changed : ∀ state event key, holds (apply state event) key ↔
      adds event key ∨ (holds state key ∧ ¬ removes event key))
    (events : List ε) (key : κ) :
    holds (events.foldl apply start) key ↔
      Outlives adds removes events key := by
  induction events using List.reverseRecOn with
  | nil =>
      rw [List.foldl_nil, iff_false_left (initial key)]
      exact not_outlives_nil key
  | append_singleton events event induction =>
      rw [List.foldl_append, List.foldl_cons, List.foldl_nil, changed,
        outlives_snoc, induction]

instance [∀ event key, Decidable (adds event key)]
    [∀ event key, Decidable (removes event key)] (events : List ε) (key : κ) :
    Decidable (Outlives adds removes events key) :=
  decidable_of_iff
    (events.foldl (fun (held : κ → Bool) event key =>
      adds event key ∨ (held key ∧ ¬ removes event key)) (fun _ => false)
        key = true)
    (@holds_foldl_iff ε κ (κ → Bool) adds removes (fun held key => held key)
      _ _ (by simp) (by simp) events key)

end ChronoShare
