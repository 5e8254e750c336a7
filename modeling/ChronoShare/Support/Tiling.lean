import Mathlib.Data.Set.BooleanAlgebra
import Mathlib.Order.CompletePartialOrder
import Mathlib.Order.Interval.Set.LinearOrder

/-!
# Ranges laid end to end

A pair `(low, high)` stands for the elements above `low` up to `high`.  Ranges
tile an interval when each starts where the one before it ended; such ranges
are pairwise disjoint and cover the interval exactly.
-/

namespace ChronoShare

variable {α : Type} [LinearOrder α]

inductive Tiles (base : α) : List (α × α) → α → Prop where
  | nil : Tiles base [] base
  | snoc {ranges : List (α × α)} {middle final : α} :
      Tiles base ranges middle → middle ≤ final →
      Tiles base (ranges ++ [(middle, final)]) final

namespace Tiles

variable {base final : α} {ranges : List (α × α)}

theorem base_le (tiles : Tiles base ranges final) : base ≤ final := by
  induction tiles with
  | nil => exact le_rfl
  | snoc _ step induction => exact induction.trans step

theorem covers (tiles : Tiles base ranges final) (number : α) :
    (∃ range ∈ ranges, number ∈ Set.Ioc range.1 range.2) ↔
      number ∈ Set.Ioc base final := by
  induction tiles with
  | nil => simp
  | @snoc ranges middle final earlier step induction =>
      rw [← Set.Ioc_union_Ioc_eq_Ioc earlier.base_le step, Set.mem_union,
        ← induction]
      constructor
      · intro covered
        obtain ⟨range, member, inside⟩ := covered
        rcases List.mem_append.mp member with old | new
        · exact Or.inl ⟨range, old, inside⟩
        · rw [List.mem_singleton.mp new] at inside
          exact Or.inr inside
      · intro covered
        rcases covered with ⟨range, old, inside⟩ | inside
        · exact ⟨range, List.mem_append_left _ old, inside⟩
        · exact ⟨(middle, final), by simp, inside⟩

theorem disjoint (tiles : Tiles base ranges final) :
    ranges.Pairwise fun first second =>
      Disjoint (Set.Ioc first.1 first.2) (Set.Ioc second.1 second.2) := by
  induction tiles with
  | nil => exact List.Pairwise.nil
  | @snoc ranges middle final earlier step induction =>
      apply List.pairwise_append.mpr
      refine ⟨induction, List.pairwise_singleton _ _, ?_⟩
      intro first firstIn second secondIn
      rw [List.mem_singleton.mp secondIn]
      apply Set.disjoint_left.mpr
      intro number inFirst inSecond
      have below : number ∈ Set.Ioc base middle :=
        (earlier.covers number).mp ⟨first, firstIn, inFirst⟩
      exact absurd below.2 (not_le.mpr inSecond.1)

end Tiles

end ChronoShare
