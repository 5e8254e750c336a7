import Mathlib.Data.List.Nodup
import Mathlib.Data.List.Perm.Basic
import Mathlib.Order.WithBot

/-!
# Relational tables as lists of rows

A table is the list of its rows.  `column` reads one column by a key column,
and the joins are the nested loops of a relational query: a left join keeps an
unmatched row next to a missing partner.
-/

namespace ChronoShare

namespace Table

variable {ρ κ ν α β : Type}

section Column

variable [DecidableEq κ] (key : ρ → κ) (value : ρ → ν)

/-- The value stored under a key, as a map that is `⊥` at unused keys. -/
def column (rows : List ρ) (wanted : κ) : WithBot ν :=
  match rows.find? (fun row => key row = wanted) with
  | none => ⊥
  | some row => (value row : WithBot ν)

variable {key value} {rows : List ρ}

theorem column_of_mem (unique : (rows.map key).Nodup) {row : ρ}
    (member : row ∈ rows) : column key value rows (key row) = value row := by
  induction rows with
  | nil => simp at member
  | cons head tail induction =>
      obtain ⟨headFresh, tailUnique⟩ := List.nodup_cons.mp unique
      rcases List.mem_cons.mp member with rfl | later
      · simp [column]
      · have different : key head ≠ key row := by
          intro same
          exact headFresh (same ▸ List.mem_map_of_mem later)
        have step : column key value (head :: tail) (key row) =
            column key value tail (key row) := by
          simp [column, different]
        rw [step, induction tailUnique later]

theorem column_eq_bot_iff {wanted : κ} :
    column key value rows wanted = ⊥ ↔ ∀ row ∈ rows, key row ≠ wanted := by
  unfold column
  cases found : rows.find? (fun row => key row = wanted) with
  | none => simpa using found
  | some row =>
      have present := List.find?_some found
      have member := List.mem_of_find?_eq_some found
      simp only [decide_eq_true_eq] at present
      simp only [WithBot.coe_ne_bot, false_iff, not_forall]
      exact ⟨row, member, by simpa using present⟩

theorem mem_of_column_eq {wanted : κ} {stored : ν}
    (equality : column key value rows wanted = stored) :
    ∃ row ∈ rows, key row = wanted ∧ value row = stored := by
  unfold column at equality
  cases found : rows.find? (fun row => key row = wanted) with
  | none => simp [found] at equality
  | some row =>
      simp only [found, WithBot.coe_inj] at equality
      exact ⟨row, List.mem_of_find?_eq_some found,
        by simpa using List.find?_some found, equality⟩

theorem column_eq_coe_iff (unique : (rows.map key).Nodup)
    {wanted : κ} {stored : ν} :
    column key value rows wanted = stored ↔
      ∃ row ∈ rows, key row = wanted ∧ value row = stored := by
  constructor
  · exact mem_of_column_eq
  · rintro ⟨row, member, rfl, rfl⟩
    exact column_of_mem unique member

theorem row_unique (key : ρ → κ) {rows : List ρ}
    (unique : (rows.map key).Nodup) {left right : ρ}
    (leftIn : left ∈ rows) (rightIn : right ∈ rows)
    (same : key left = key right) : left = right := by
  have stored : column key (fun row => row) rows (key left) = left :=
    column_of_mem unique leftIn
  rw [same, column_of_mem unique rightIn] at stored
  exact (WithBot.coe_inj.mp stored).symm

theorem find?_eq_some_iff (key : ρ → κ) {rows : List ρ}
    (unique : (rows.map key).Nodup) {wanted : κ} {row : ρ} :
    rows.find? (fun other => key other = wanted) = some row ↔
      row ∈ rows ∧ key row = wanted := by
  constructor
  · intro found
    exact ⟨List.mem_of_find?_eq_some found, by
      simpa using List.find?_some found⟩
  · rintro ⟨member, rfl⟩
    cases found : rows.find? (fun other => key other = key row) with
    | none =>
        have absent := List.find?_eq_none.mp found row member
        simp at absent
    | some other =>
        have sameKey : key other = key row := by
          simpa using List.find?_some found
        rw [row_unique key unique (List.mem_of_find?_eq_some found) member sameKey]

theorem filter_eq_find? (key : ρ → κ) {rows : List ρ}
    (unique : (rows.map key).Nodup) {wanted : κ} :
    rows.filter (fun row => key row = wanted) =
      (rows.find? fun row => key row = wanted).toList := by
  induction rows with
  | nil => rfl
  | cons head tail induction =>
      obtain ⟨headFresh, tailUnique⟩ := List.nodup_cons.mp unique
      by_cases same : key head = wanted
      · have others : tail.filter (fun row => key row = wanted) = [] := by
          apply List.filter_eq_nil_iff.mpr
          intro row member sameKey
          apply headFresh
          rw [same, ← of_decide_eq_true sameKey]
          exact List.mem_map_of_mem member
        simp [same, others]
      · simp only [same, decide_false, Bool.false_eq_true, not_false_eq_true,
          List.filter_cons_of_neg, List.find?_cons_of_neg]
        exact induction tailUnique

theorem column_map {rewrite : ρ → ρ}
    (sameKey : ∀ row, key (rewrite row) = key row) :
    column key value (rows.map rewrite) =
      column key (fun row => value (rewrite row)) rows := by
  funext wanted
  unfold column
  rw [List.find?_map]
  simp only [Function.comp_def, sameKey]
  cases rows.find? (fun row => key row = wanted) with
  | none => rfl
  | some row => rfl

theorem column_append_of_absent {wanted : κ} {others : List ρ}
    (absent : ∀ row ∈ others, key row ≠ wanted) :
    column key value (rows ++ others) wanted = column key value rows wanted := by
  have missing : others.find? (fun row => key row = wanted) = none := by
    simpa using absent
  simp [column, List.find?_append, missing]

end Column

def innerJoin (on : α → β → Bool) (left : List α) (right : List β) :
    List (α × β) :=
  left.flatMap fun row => (right.filter (on row)).map fun other => (row, other)

def leftJoin (on : α → β → Bool) (left : List α) (right : List β) :
    List (α × Option β) :=
  left.flatMap fun row =>
    match right.filter (on row) with
    | [] => [(row, none)]
    | matched => matched.map fun other => (row, some other)

variable {on : α → β → Bool} {left : List α} {right : List β}

theorem mem_innerJoin {row : α} {other : β} :
    (row, other) ∈ innerJoin on left right ↔
      row ∈ left ∧ other ∈ right ∧ on row other = true := by
  simp only [innerJoin, List.mem_flatMap, List.mem_map, List.mem_filter,
    Prod.mk.injEq]
  constructor
  · rintro ⟨_, rowIn, _, ⟨otherIn, joined⟩, rfl, rfl⟩
    exact ⟨rowIn, otherIn, joined⟩
  · rintro ⟨rowIn, otherIn, joined⟩
    exact ⟨row, rowIn, other, ⟨otherIn, joined⟩, rfl, rfl⟩

theorem mem_leftJoin_some {row : α} {other : β} :
    (row, some other) ∈ leftJoin on left right ↔
      row ∈ left ∧ other ∈ right ∧ on row other = true := by
  simp only [leftJoin, List.mem_flatMap]
  constructor
  · rintro ⟨source, sourceIn, member⟩
    cases matched : right.filter (on source) with
    | nil => simp [matched] at member
    | cons head tail =>
        simp only [matched, List.mem_map, Prod.mk.injEq,
          Option.some.injEq] at member
        obtain ⟨partner, partnerIn, rfl, rfl⟩ := member
        rw [← matched] at partnerIn
        obtain ⟨inRight, joined⟩ := List.mem_filter.mp partnerIn
        exact ⟨sourceIn, inRight, joined⟩
  · rintro ⟨rowIn, otherIn, joined⟩
    refine ⟨row, rowIn, ?_⟩
    have inFilter : other ∈ right.filter (on row) :=
      List.mem_filter.mpr ⟨otherIn, joined⟩
    cases matched : right.filter (on row) with
    | nil => simp [matched] at inFilter
    | cons head tail =>
        rw [matched] at inFilter
        exact List.mem_map.mpr ⟨other, inFilter, rfl⟩

theorem mem_leftJoin_none {row : α} :
    (row, none) ∈ leftJoin on left right ↔
      row ∈ left ∧ ∀ other ∈ right, on row other = false := by
  simp only [leftJoin, List.mem_flatMap]
  constructor
  · rintro ⟨source, sourceIn, member⟩
    cases matched : right.filter (on source) with
    | nil =>
        obtain rfl : row = source := by simpa [matched] using member
        exact ⟨sourceIn, by simpa using matched⟩
    | cons head tail => simp [matched] at member
  · rintro ⟨rowIn, unmatched⟩
    refine ⟨row, rowIn, ?_⟩
    have empty : right.filter (on row) = [] := by simpa using unmatched
    simp [empty]

theorem mem_leftJoin {row : α} {partner : Option β}
    (joined : (row, partner) ∈ leftJoin on left right) :
    row ∈ left ∧ ∀ other, partner = some other → other ∈ right := by
  cases partner with
  | none => exact ⟨(mem_leftJoin_none.mp joined).1, by simp⟩
  | some found =>
      obtain ⟨rowIn, foundIn, -⟩ := mem_leftJoin_some.mp joined
      refine ⟨rowIn, ?_⟩
      intro other same
      rwa [← Option.some.inj same]

private theorem pairwise_disjoint_rows {γ : Type} {rows : List α}
    (unique : rows.Nodup) {expand : α → List (α × γ)}
    (first : ∀ row, ∀ pair ∈ expand row, pair.1 = row) :
    rows.Pairwise (Function.onFun List.Disjoint expand) := by
  apply unique.imp
  intro row other different pair inRow inOther
  apply different
  rw [← first row pair inRow, first other pair inOther]

theorem innerJoin_nodup (leftUnique : left.Nodup)
    (rightUnique : right.Nodup) : (innerJoin on left right).Nodup := by
  apply List.nodup_flatMap.mpr
  constructor
  · intro row _
    apply (rightUnique.filter _).map
    intro first second same
    exact congrArg Prod.snd same
  · apply pairwise_disjoint_rows leftUnique
    intro row pair member
    obtain ⟨_, _, same⟩ := List.mem_map.mp member
    rw [← same]

theorem leftJoin_nodup (leftUnique : left.Nodup)
    (rightUnique : right.Nodup) : (leftJoin on left right).Nodup := by
  apply List.nodup_flatMap.mpr
  constructor
  · intro row _
    have matchedUnique : (right.filter (on row)).Nodup :=
      rightUnique.filter _
    cases matched : right.filter (on row) with
    | nil => exact List.nodup_singleton _
    | cons head tail =>
        rw [matched] at matchedUnique
        apply matchedUnique.map
        intro first second same
        exact Option.some.inj (congrArg Prod.snd same)
  · apply pairwise_disjoint_rows leftUnique
    intro row pair member
    cases matched : right.filter (on row) with
    | nil =>
        rw [matched] at member
        rw [List.mem_singleton.mp member]
    | cons head tail =>
        rw [matched] at member
        obtain ⟨_, _, same⟩ := List.mem_map.mp member
        rw [← same]

end Table

end ChronoShare
