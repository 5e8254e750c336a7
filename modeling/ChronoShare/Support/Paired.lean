import Mathlib.Data.List.Forall2

/-!
# Lists related entry by entry

What holds of the entries of one list carries over to the entries of a list
related to it.
-/

namespace ChronoShare

variable {α β : Type} {related : α → β → Prop} {left : List α} {right : List β}

theorem exists_of_mem_left (paired : List.Forall₂ related left right)
    {entry : α} (member : entry ∈ left) :
    ∃ other ∈ right, related entry other := by
  induction paired with
  | nil => simp at member
  | cons holds _ induction =>
      rcases List.mem_cons.mp member with rfl | later
      · exact ⟨_, List.mem_cons_self, holds⟩
      · obtain ⟨other, found, holds⟩ := induction later
        exact ⟨other, List.mem_cons_of_mem _ found, holds⟩

theorem exists_of_mem_right (paired : List.Forall₂ related left right)
    {other : β} (member : other ∈ right) :
    ∃ entry ∈ left, related entry other := by
  have flipped : List.Forall₂ (flip related) right left := paired.flip
  exact exists_of_mem_left flipped member

theorem pairwise_of_paired {apart : α → α → Prop} {distinct : β → β → Prop}
    (paired : List.Forall₂ related left right) (separate : left.Pairwise apart)
    (transfer : ∀ entry ∈ left, ∀ later ∈ left, ∀ other following,
      related entry other → related later following → apart entry later →
        distinct other following) :
    right.Pairwise distinct := by
  induction paired with
  | nil => exact .nil
  | @cons entry other left right holds rest induction =>
      obtain ⟨headApart, tailApart⟩ := List.pairwise_cons.mp separate
      apply List.pairwise_cons.mpr
      constructor
      · intro following member
        obtain ⟨later, laterIn, related⟩ := exists_of_mem_right rest member
        exact transfer entry List.mem_cons_self later
          (List.mem_cons_of_mem _ laterIn) other following holds related
          (headApart later laterIn)
      · apply induction tailApart
        intro first firstIn second secondIn
        exact transfer first (List.mem_cons_of_mem _ firstIn) second
          (List.mem_cons_of_mem _ secondIn)

theorem paired_append {entry : α} {other : β}
    (paired : List.Forall₂ related left right) (holds : related entry other) :
    List.Forall₂ related (left ++ [entry]) (right ++ [other]) := by
  induction paired with
  | nil => exact .cons holds .nil
  | cons head _ induction => exact .cons head induction

end ChronoShare
