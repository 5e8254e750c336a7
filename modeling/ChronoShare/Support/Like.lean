import Mathlib.Data.List.Infix
import Mathlib.Data.List.Forall2

/-!
# Patterns of texts

The operator `LIKE`: a percent sign stands for any text, an underscore for any
character, and letters for themselves in either case.
-/

namespace ChronoShare

abbrev Text := List Char

/-- The code of a character, where capital letters have those of the others. -/
def foldCase (character : Char) : Nat :=
  if 'A'.toNat ≤ character.toNat ∧ character.toNat ≤ 'Z'.toNat then
    character.toNat + 32
  else
    character.toNat

/-- What one character of a pattern stands for, if it is no percent sign. -/
def standsFor (symbol character : Char) : Bool :=
  symbol = '_' || foldCase symbol = foldCase character

def like : Text → Text → Bool
  | [], text => text.isEmpty
  | symbol :: pattern, text =>
      if symbol = '%' then
        text.tails.any (like pattern)
      else
        text.head?.any (standsFor symbol) && like pattern text.tail

variable {pattern front back text : Text} {symbol : Char}

@[simp] theorem standsFor_self (character : Char) :
    standsFor character character = true := by
  simp [standsFor]

theorem standsFor_iff {character : Char} (single : symbol ≠ '_')
    (other : symbol.toNat < 65 ∨ (90 < symbol.toNat ∧ symbol.toNat < 97)) :
    standsFor symbol character = true ↔ character = symbol := by
  have upper : 'A'.toNat = 65 ∧ 'Z'.toNat = 90 := ⟨rfl, rfl⟩
  simp only [standsFor, single, decide_false, Bool.false_or, decide_eq_true_eq]
  constructor
  · intro same
    rw [foldCase, foldCase] at same
    apply Char.toNat_inj.mp
    split_ifs at same <;> omega
  · rintro rfl
    rfl

@[simp] theorem like_nil : like [] text = true ↔ text = [] :=
  List.isEmpty_iff

theorem like_percent :
    like ('%' :: pattern) text = true ↔
      ∃ skipped rest, text = skipped ++ rest ∧ like pattern rest = true := by
  rw [like, if_pos rfl, List.any_eq_true]
  constructor
  · rintro ⟨rest, isTail, matched⟩
    obtain ⟨skipped, rfl⟩ := (List.mem_tails rest text).mp isTail
    exact ⟨skipped, rest, rfl, matched⟩
  · rintro ⟨skipped, rest, rfl, matched⟩
    exact ⟨rest, (List.mem_tails rest _).mpr ⟨skipped, rfl⟩, matched⟩

theorem like_cons (single : symbol ≠ '%') :
    like (symbol :: pattern) text = true ↔
      ∃ character rest, text = character :: rest ∧
        standsFor symbol character = true ∧ like pattern rest = true := by
  rw [like, if_neg single]
  cases text with
  | nil => simp
  | cons character rest => simp

theorem like_append :
    like (front ++ back) text = true ↔
      ∃ first second, text = first ++ second ∧
        like front first = true ∧ like back second = true := by
  induction front generalizing text with
  | nil => simp
  | cons symbol front induction =>
      rw [List.cons_append]
      by_cases percent : symbol = '%'
      · subst percent
        rw [like_percent]
        constructor
        · rintro ⟨skipped, rest, rfl, matched⟩
          obtain ⟨first, second, rfl, here, later⟩ := induction.mp matched
          exact ⟨skipped ++ first, second, by rw [List.append_assoc],
            like_percent.mpr ⟨skipped, first, rfl, here⟩, later⟩
        · rintro ⟨first, second, rfl, here, later⟩
          obtain ⟨skipped, rest, rfl, matched⟩ := like_percent.mp here
          exact ⟨skipped, rest ++ second, by rw [List.append_assoc],
            induction.mpr ⟨rest, second, rfl, matched, later⟩⟩
      · rw [like_cons percent]
        constructor
        · rintro ⟨character, rest, rfl, stands, matched⟩
          obtain ⟨first, second, rfl, here, later⟩ := induction.mp matched
          exact ⟨character :: first, second, rfl,
            (like_cons percent).mpr ⟨character, first, rfl, stands, here⟩,
            later⟩
        · rintro ⟨first, second, rfl, here, later⟩
          obtain ⟨character, rest, rfl, stands, matched⟩ :=
            (like_cons percent).mp here
          exact ⟨character, rest ++ second, rfl, stands,
            induction.mpr ⟨rest, second, rfl, matched, later⟩⟩

theorem like_any : like ['%'] text = true := by
  rw [like_percent]
  exact ⟨text, [], by rw [List.append_nil], rfl⟩

end ChronoShare
