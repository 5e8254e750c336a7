import Mathlib.Data.List.Infix
import Mathlib.Data.List.DropRight

/-!
# Texts of components between separators

The components of a text are what stands between its separators.  One text is
the start of another one component by component when the other goes on with a
separator, and cutting the last component off leaves the text before the last
separator.
-/

namespace ChronoShare

variable {α : Type}

theorem intercalate_append {separator : List α} {left right : List (List α)}
    (leftSome : left ≠ []) (rightSome : right ≠ []) :
    separator.intercalate (left ++ right) =
      separator.intercalate left ++ separator ++
        separator.intercalate right := by
  induction left with
  | nil => exact absurd rfl leftSome
  | cons first left induction =>
      cases left with
      | nil =>
          obtain ⟨next, right, rfl⟩ := List.exists_cons_of_ne_nil rightSome
          simp
      | cons second left =>
          have rest := induction (List.cons_ne_nil second left)
          rw [List.cons_append] at rest
          rw [List.cons_append, List.cons_append, List.intercalate_cons_cons,
            List.intercalate_cons_cons, rest]
          simp only [List.append_assoc]

theorem mem_intercalate {separator value : α} {parts : List (List α)}
    (member : value ∈ [separator].intercalate parts) :
    value = separator ∨ ∃ part ∈ parts, value ∈ part := by
  induction parts with
  | nil => cases member
  | cons first parts induction =>
      cases parts with
      | nil => exact .inr ⟨first, List.mem_cons_self, by simpa using member⟩
      | cons second parts =>
          rw [List.intercalate_cons_cons, List.append_assoc] at member
          rcases List.mem_append.mp member with here | later
          · exact .inr ⟨first, List.mem_cons_self, here⟩
          · rcases List.mem_append.mp later with between | rest
            · exact .inl (List.mem_singleton.mp between)
            · refine (induction rest).imp_right ?_
              rintro ⟨part, inParts, inside⟩
              exact ⟨part, List.mem_cons_of_mem _ inParts, inside⟩

theorem isInfix_intercalate {separator part : List α} {parts : List (List α)}
    (member : part ∈ parts) : part <:+: separator.intercalate parts := by
  induction parts with
  | nil => cases member
  | cons first parts induction =>
      cases parts with
      | nil =>
          obtain rfl : part = first := by simpa using member
          simp
      | cons second parts =>
          rw [List.intercalate_cons_cons]
          rcases List.mem_cons.mp member with rfl | later
          · exact ((List.prefix_append _ _).trans
              (List.prefix_append _ _)).isInfix
          · exact (induction later).trans (List.suffix_append _ _).isInfix

theorem exists_last_append {separator : α} {text : List α}
    (member : separator ∈ text) :
    ∃ parent last, text = parent ++ separator :: last ∧ separator ∉ last := by
  obtain ⟨front, back, split, absent⟩ :=
    List.eq_append_cons_of_mem (List.mem_reverse.mpr member)
  refine ⟨back.reverse, front.reverse, ?_, ?_⟩
  · rw [← List.reverse_reverse text, split]
    simp
  · rw [List.mem_reverse]
    exact absent

variable [DecidableEq α] {separator : α}

theorem splitOn_append_cons (separator : α) (left right : List α) :
    (left ++ separator :: right).splitOn separator =
      left.splitOn separator ++ right.splitOn separator := by
  rw [List.splitOn_eq_splitOnP, List.splitOn_eq_splitOnP,
    List.splitOn_eq_splitOnP]
  exact List.splitOnP_append_cons left right (by simp)

theorem splitOn_flatMap_cons {β : Type*} {separator : α} {text : β → List α}
    (absent : ∀ value, separator ∉ text value) (values : List β) :
    (values.flatMap fun value => separator :: text value).splitOn separator =
      [] :: values.map text := by
  induction values using List.reverseRecOn with
  | nil => simp
  | append_singleton values value induction =>
      rw [List.flatMap_append, List.flatMap_singleton, splitOn_append_cons,
        induction, List.splitOn_eq_singleton (absent value), List.map_append]
      rfl

theorem mem_of_mem_splitOn {text part : List α} {value : α}
    (member : part ∈ text.splitOn separator) (inside : value ∈ part) :
    value ∈ text ∧ value ≠ separator := by
  induction text generalizing part with
  | nil =>
      obtain rfl : part = [] := by simpa using member
      cases inside
  | cons first text induction =>
      rw [List.splitOn_cons_eq_if_modifyHead] at member
      split_ifs at member with separates
      · rcases List.mem_cons.mp member with rfl | later
        · cases inside
        · exact (induction later inside).imp_left (List.mem_cons_of_mem _)
      · obtain ⟨next, parts, split⟩ :=
          List.exists_cons_of_ne_nil (List.splitOn_ne_nil separator text)
        rw [split] at induction member
        rcases List.mem_cons.mp member with rfl | later
        · rcases List.mem_cons.mp inside with rfl | rest
          · exact ⟨List.mem_cons_self, by simpa using separates⟩
          · exact (induction List.mem_cons_self rest).imp_left
              (List.mem_cons_of_mem _)
        · exact (induction (List.mem_cons_of_mem _ later) inside).imp_left
            (List.mem_cons_of_mem _)

theorem isInfix_of_mem_splitOn {text part : List α}
    (member : part ∈ text.splitOn separator) : part <:+: text := by
  have inside : part <:+: [separator].intercalate (text.splitOn separator) :=
    isInfix_intercalate member
  rwa [List.intercalate_splitOn] at inside

theorem splitOn_prefix_iff {start text : List α} :
    start.splitOn separator <+: text.splitOn separator ↔
      text = start ∨ ∃ rest, text = start ++ separator :: rest := by
  constructor
  · intro isPrefix
    obtain ⟨more, split⟩ := isPrefix
    have joined : text = [separator].intercalate
        (start.splitOn separator ++ more) := by
      rw [split, List.intercalate_splitOn]
    cases more with
    | nil =>
        rw [List.append_nil, List.intercalate_splitOn] at joined
        exact .inl joined
    | cons first more =>
        rw [intercalate_append (List.splitOn_ne_nil separator start)
          (List.cons_ne_nil first more), List.intercalate_splitOn] at joined
        exact .inr ⟨_, by simpa using joined⟩
  · intro continued
    rcases continued with rfl | ⟨rest, rfl⟩
    · exact List.prefix_rfl
    · rw [splitOn_append_cons]
      exact List.prefix_append _ _

/-- Neither end of the text is a separator, and no two of them meet. -/
def Separated (separator : α) (text : List α) : Prop :=
  ∀ component ∈ text.splitOn separator, component ≠ []

instance (separator : α) (text : List α) :
    Decidable (Separated separator text) :=
  inferInstanceAs (Decidable (∀ component ∈ _, _))

namespace Separated

variable {text : List α}

theorem ne_nil (separated : Separated separator text) : text ≠ [] := by
  rintro rfl
  exact separated [] (by simp) rfl

theorem cut (separated : Separated separator text) :
    (separator ∉ text ∧ text.splitOn separator = [text]) ∨
      ∃ parent last, text = parent ++ separator :: last ∧
        separator ∉ last ∧ last ≠ [] ∧ Separated separator parent ∧
          text.splitOn separator = parent.splitOn separator ++ [last] := by
  by_cases single : separator ∉ text
  · exact .inl ⟨single, List.splitOn_eq_singleton single⟩
  · obtain ⟨parent, last, rfl, absent⟩ :=
      exists_last_append (not_not.mp single)
    have split := splitOn_append_cons separator parent last
    rw [List.splitOn_eq_singleton absent] at split
    refine .inr ⟨parent, last, rfl, absent, ?_, ?_, split⟩
    · apply separated last
      rw [split]
      exact List.mem_append_right _ (List.mem_singleton.mpr rfl)
    · intro component member
      apply separated component
      rw [split]
      exact List.mem_append_left _ member

theorem getLast?_ne (separated : Separated separator text) :
    text.getLast? ≠ some separator := by
  intro last
  obtain ⟨front, rfl⟩ := List.getLast?_eq_some_iff.mp last
  apply separated []
  · rw [splitOn_append_cons]
    simp
  · rfl

end Separated

end ChronoShare
