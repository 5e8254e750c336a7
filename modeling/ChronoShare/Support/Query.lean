import Mathlib.Data.List.Sort

/-!
# Queries on a table

A query arranges the rows that it selects in an order that leaves ties open,
skips an offset and returns at most a limit of them.  Windows of one size laid
end to end return every row once.
-/

namespace ChronoShare

variable {α : Type}

/-- A way to order the rows of a query: ties fall in the same way each time. -/
structure Arrangement (before : α → α → Prop) where
  arrange : List α → List α
  perm : ∀ rows, (arrange rows).Perm rows
  ordered : ∀ rows, (arrange rows).Pairwise before

namespace Arrangement

variable {before : α → α → Prop}

/-- The rows in the order of the table where they tie. -/
def stable (before : α → α → Prop) [DecidableRel before] [Std.Total before]
    [IsTrans α before] : Arrangement before where
  arrange := List.insertionSort before
  perm := List.perm_insertionSort before
  ordered := List.pairwise_insertionSort before

def unordered : Arrangement fun _ _ : α => True where
  arrange := id
  perm := List.Perm.refl
  ordered := fun _ => List.pairwise_of_forall fun _ _ => trivial

theorem mem_arrange (order : Arrangement before) {rows : List α} {row : α} :
    row ∈ order.arrange rows ↔ row ∈ rows :=
  (order.perm rows).mem_iff

theorem length_arrange (order : Arrangement before) (rows : List α) :
    (order.arrange rows).length = rows.length :=
  (order.perm rows).length_eq

theorem exists_arrange_eq [DecidableEq α] (order : Arrangement before)
    {rows result : List α} (perm : result.Perm rows)
    (ordered : result.Pairwise before) :
    ∃ other : Arrangement before, other.arrange rows = result := by
  refine ⟨⟨fun asked => if asked = rows then result else order.arrange asked,
    ?_, ?_⟩, if_pos rfl⟩
  · intro asked
    split_ifs with same
    · rw [same]
      exact perm
    · exact order.perm asked
  · intro asked
    split_ifs
    · exact ordered
    · exact order.ordered asked

section Ties

variable [DecidableRel before]

/-- Rows that tie with one of the first rows stand among those, after all that
come strictly before it. -/
theorem earlier_add_le [Std.Refl before] (order : Arrangement before)
    {rows part : List α} {pivot : α} {count : Nat}
    (first : pivot ∈ (order.arrange rows).take count)
    (sub : part.Sublist ((order.arrange rows).take count))
    (tied : ∀ row ∈ part, before pivot row) :
    (rows.filter fun row => ¬ before pivot row).length + part.length ≤
      count := by
  have sorted := order.ordered rows
  rw [← List.take_append_drop count (order.arrange rows)] at sorted
  obtain ⟨-, -, across⟩ := List.pairwise_append.mp sorted
  have later : ((order.arrange rows).drop count).filter
      (fun row => ¬ before pivot row) = [] := by
    apply List.filter_eq_nil_iff.mpr
    intro row member
    simpa using across pivot first row member
  have earlier : (rows.filter fun row => ¬ before pivot row).length =
      (((order.arrange rows).take count).filter
        fun row => ¬ before pivot row).length := by
    rw [← ((order.perm rows).filter _).length_eq]
    conv_lhs =>
      rw [← List.take_append_drop count (order.arrange rows),
        List.filter_append, later, List.append_nil]
  have others : part.Sublist (((order.arrange rows).take count).filter
      fun row => !decide (¬ before pivot row)) := by
    have kept := sub.filter fun row => !decide (¬ before pivot row)
    rwa [List.filter_eq_self.mpr] at kept
    intro row member
    simpa using tied row member
  have split := (List.filter_append_perm
    (fun row => decide (¬ before pivot row))
    ((order.arrange rows).take count)).length_eq
  rw [List.length_append] at split
  have bounded := List.length_take_le count (order.arrange rows)
  have few := others.length_le
  omega

/-- The rows strictly before the pivot, then the tied ones in the order of the
table, then the others. -/
def tiesFirst (order : Arrangement before) (rows : List α) (pivot : α)
    (tied : α → Bool) : List α :=
  (order.arrange rows).filter (fun row => ¬ before pivot row) ++
    (rows.filter tied ++
      ((order.arrange rows).filter fun row => before pivot row).filter
        fun row => !tied row)

theorem perm_tiesFirst (order : Arrangement before) {rows : List α} {pivot : α}
    {tied : α → Bool}
    (behind : ∀ row ∈ rows, tied row = true → before pivot row) :
    (order.tiesFirst rows pivot tied).Perm rows := by
  let sorted := order.arrange rows
  let remaining := sorted.filter fun row => before pivot row
  have tiedLast : (rows.filter tied).Perm (remaining.filter tied) := by
    have same : remaining.filter tied = sorted.filter tied := by
      rw [List.filter_filter]
      apply List.filter_congr
      intro row member
      cases isTied : tied row with
      | false => rfl
      | true =>
          have inTable := order.mem_arrange.mp member
          simpa using behind row inTable isTied
    rw [same]
    exact ((order.perm rows).filter tied).symm
  have others : (rows.filter tied ++
      remaining.filter fun row => !tied row).Perm remaining :=
    (tiedLast.append_right _).trans (List.filter_append_perm tied remaining)
  have split : (sorted.filter (fun row => ¬ before pivot row) ++
      remaining).Perm sorted := by
    simpa [remaining] using List.filter_append_perm
      (fun row => decide (¬ before pivot row)) sorted
  exact (others.append_left _).trans (split.trans (order.perm rows))

theorem pairwise_tiesFirst [Std.Total before] [IsTrans α before]
    (order : Arrangement before) {rows : List α} {pivot : α} {tied : α → Bool}
    (ties : ∀ row ∈ rows, tied row = true →
      before row pivot ∧ before pivot row) :
    (order.tiesFirst rows pivot tied).Pairwise before := by
  have isTied : ∀ row ∈ rows.filter tied,
      before row pivot ∧ before pivot row := by
    intro row member
    obtain ⟨inTable, chosen⟩ := List.mem_filter.mp member
    exact ties row inTable chosen
  have remains : ∀ row ∈ ((order.arrange rows).filter
      fun row => before pivot row).filter fun row => !tied row,
        before pivot row := by
    intro row member
    have behind := (List.mem_filter.mp (List.mem_of_mem_filter member)).2
    exact of_decide_eq_true behind
  apply List.pairwise_append.mpr
  refine ⟨(order.ordered rows).filter _, ?_, ?_⟩
  · apply List.pairwise_append.mpr
    refine ⟨?_, ((order.ordered rows).filter _).filter _, ?_⟩
    · apply List.pairwise_of_forall_mem_list
      intro left leftIn right rightIn
      exact IsTrans.trans _ _ _ (isTied left leftIn).1 (isTied right rightIn).2
    · intro left leftIn right rightIn
      exact IsTrans.trans _ _ _ (isTied left leftIn).1 (remains right rightIn)
  · intro left leftIn right rightIn
    have strict := of_decide_eq_true (List.mem_filter.mp leftIn).2
    have ordered : before left pivot ∨ before pivot left :=
      Std.Total.total left pivot
    have ahead : before left pivot := ordered.resolve_right strict
    apply IsTrans.trans _ _ _ ahead
    rcases List.mem_append.mp rightIn with isIn | isIn
    · exact (isTied right isIn).2
    · exact remains right isIn

/-- The rows that tie with one another may stand before all the others that tie
with them, in the order of the table. -/
theorem exists_arrange_tied [Std.Total before] [IsTrans α before]
    [DecidableEq α] (order : Arrangement before) (rows : List α) (pivot : α)
    (tied : α → Bool)
    (ties : ∀ row ∈ rows, tied row = true →
      before row pivot ∧ before pivot row) :
    ∃ (other : Arrangement before) (earlier later : List α),
      other.arrange rows = earlier ++ (rows.filter tied ++ later) ∧
        earlier.length =
          (rows.filter fun row => ¬ before pivot row).length := by
  have perm : (order.tiesFirst rows pivot tied).Perm rows :=
    order.perm_tiesFirst fun row member isTied => (ties row member isTied).2
  obtain ⟨other, isOther⟩ :=
    order.exists_arrange_eq perm (order.pairwise_tiesFirst ties)
  refine ⟨other, _, _, isOther, ?_⟩
  exact ((order.perm rows).filter _).length_eq

end Ties

end Arrangement

/-- `LIMIT limit OFFSET offset`: a limit below zero is none, and an offset below
zero skips nothing. -/
def window (limit offset : Int) (rows : List α) : List α :=
  if limit < 0 then rows.drop offset.toNat
  else (rows.drop offset.toNat).take limit.toNat

@[simp] theorem window_natCast (limit offset : Nat) (rows : List α) :
    window limit offset rows = (rows.drop offset).take limit :=
  if_neg (by omega)

def OnPage (limit offset : Int) (position : Nat) : Prop :=
  offset.toNat ≤ position ∧
    (limit < 0 ∨ position < offset.toNat + limit.toNat)

theorem getElem?_window (limit offset : Int) (rows : List α) (index : Nat) :
    (window limit offset rows)[index]? =
      if limit < 0 ∨ index < limit.toNat then rows[offset.toNat + index]?
      else none := by
  rw [window]
  by_cases unlimited : limit < 0
  · rw [if_pos unlimited, if_pos (Or.inl unlimited), List.getElem?_drop]
  · rw [if_neg unlimited, List.getElem?_take, List.getElem?_drop]
    simp only [unlimited, false_or]

theorem window_eq_iff {limit offset : Int} {left right : List α} :
    window limit offset left = window limit offset right ↔
      ∀ position, OnPage limit offset position →
        left[position]? = right[position]? := by
  constructor
  · intro same position onPage
    obtain ⟨after, before⟩ := onPage
    have shown : limit < 0 ∨ position - offset.toNat < limit.toNat := by
      omega
    have entry := congrArg (·[position - offset.toNat]?) same
    simp only [getElem?_window, if_pos shown] at entry
    rwa [Nat.add_sub_cancel' after] at entry
  · intro agree
    apply List.ext_getElem?
    intro index
    rw [getElem?_window, getElem?_window]
    split_ifs with shown
    · apply agree
      exact ⟨Nat.le_add_right _ _, by omega⟩
    · rfl

theorem window_eq_nil_iff {limit offset : Int} {rows : List α} :
    window limit offset rows = [] ↔
      limit = 0 ∨ rows.length ≤ offset.toNat := by
  rw [window]
  split_ifs with unlimited
  · rw [List.drop_eq_nil_iff]
    omega
  · rw [List.take_eq_nil_iff, List.drop_eq_nil_iff]
    omega

theorem flatMap_window (size count : Nat) (rows : List α) :
    ((List.range count).flatMap fun index =>
      (rows.drop (index * size)).take size) = rows.take (count * size) := by
  induction count with
  | zero => simp
  | succ count induction =>
      rw [List.range_succ, List.flatMap_append, induction,
        List.flatMap_singleton, ← List.take_add, Nat.add_mul, Nat.one_mul]

end ChronoShare
