import Mathlib.Data.List.Basic

/-!
# Cutting a list into pieces

A list is read through a buffer: every piece but the last fills the buffer, and
no piece is empty.  The pieces in a row are the list again, and their number is
the quotient of the two sizes, rounded up.
-/

namespace ChronoShare

variable {α : Type}

/-- Reading stops at the first empty piece; `fuel` bounds the number of
pieces. -/
def readPieces (size : Nat) : Nat → List α → List (List α)
  | 0, _ => []
  | fuel + 1, list =>
      match list.take size with
      | [] => []
      | piece => piece :: readPieces size fuel (list.drop size)

/-- A list has no more nonempty pieces than members. -/
def pieces (size : Nat) (list : List α) : List (List α) :=
  readPieces size list.length list

theorem readPieces_succ {size : Nat} (positive : 0 < size) (fuel : Nat)
    (list : List α) :
    readPieces size (fuel + 1) list =
      if list = [] then []
      else list.take size :: readPieces size fuel (list.drop size) := by
  rw [readPieces]
  split
  · rename_i empty
    have none : list = [] := by
      rcases List.take_eq_nil_iff.mp empty with zero | none
      · omega
      · exact none
    rw [if_pos none]
  · rename_i piece nonempty
    have some : list ≠ [] := by
      intro none
      exact nonempty (by rw [none, List.take_nil])
    rw [if_neg some]

theorem readPieces_spec {size : Nat} (positive : 0 < size) (fuel : Nat)
    (list : List α) (enough : list.length ≤ fuel) :
    (readPieces size fuel list).flatten = list ∧
      (∀ piece ∈ readPieces size fuel list, piece ≠ []) ∧
      (readPieces size fuel list).length = (list.length + size - 1) / size := by
  induction fuel generalizing list with
  | zero =>
      have none : list = [] := List.eq_nil_of_length_eq_zero (by omega)
      subst none
      refine ⟨rfl, by simp [readPieces], ?_⟩
      rw [readPieces, List.length_nil, List.length_nil, Nat.zero_add]
      exact (Nat.div_eq_of_lt (by omega)).symm
  | succ fuel induction =>
      rw [readPieces_succ positive]
      split_ifs with none
      · subst none
        refine ⟨rfl, by simp, ?_⟩
        rw [List.length_nil, List.length_nil, Nat.zero_add]
        exact (Nat.div_eq_of_lt (by omega)).symm
      · have some : 0 < list.length := List.length_pos_of_ne_nil none
        obtain ⟨joined, nonempty, count⟩ := induction (list.drop size) (by
          rw [List.length_drop]
          omega)
        refine ⟨?_, ?_, ?_⟩
        · rw [List.flatten_cons, joined, List.take_append_drop]
        · intro piece member
          rcases List.mem_cons.mp member with rfl | later
          · simp [List.take_eq_nil_iff, none]
            omega
          · exact nonempty piece later
        · rw [List.length_cons, count, List.length_drop]
          rcases Nat.lt_or_ge list.length size with short | full
          · have last : list.length - size = 0 := by omega
            rw [last, Nat.zero_add, Nat.div_eq_of_lt (by omega)]
            have one : list.length + size - 1 = size + (list.length - 1) := by
              omega
            rw [one, Nat.add_div_left _ positive, Nat.div_eq_of_lt (by omega)]
          · have rest : list.length + size - 1 =
                list.length - size + size - 1 + size := by
              omega
            rw [rest, Nat.add_div_right _ positive]

variable {size : Nat}

theorem flatten_pieces (positive : 0 < size) (list : List α) :
    (pieces size list).flatten = list :=
  (readPieces_spec positive _ list (Nat.le_refl _)).1

theorem ne_nil_of_mem_pieces (positive : 0 < size) {list piece : List α}
    (member : piece ∈ pieces size list) : piece ≠ [] :=
  (readPieces_spec positive _ list (Nat.le_refl _)).2.1 piece member

theorem length_pieces (positive : 0 < size) (list : List α) :
    (pieces size list).length = (list.length + size - 1) / size :=
  (readPieces_spec positive _ list (Nat.le_refl _)).2.2

end ChronoShare
