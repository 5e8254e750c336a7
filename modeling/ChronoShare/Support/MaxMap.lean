import Mathlib.Order.WithBot
import Mathlib.Order.BoundedOrder.Lattice
import Mathlib.Order.Bounds.Defs

/-!
# Maps that only grow

A partial map into a linear order is a total map into the order with a least
element added.  Recording a value at a key is the join with a one-point map,
so any number of recordings, in any order and with repetitions, is one
pointwise maximum.  The last lemma is the merge rule of the exchange of
differences: what separates an older map from a newer one, recorded into any
map above the older one, is the join with the newer one.
-/

namespace ChronoShare

abbrev MaxMap (κ ν : Type) := κ → WithBot ν

namespace MaxMap

variable {κ ν : Type} [DecidableEq κ] [LinearOrder ν]

def point (key : κ) (value : ν) : MaxMap κ ν :=
  fun other => if other = key then value else ⊥

/-- Record a value, keeping the larger one where the key is known. -/
def raise (map : MaxMap κ ν) (key : κ) (value : ν) : MaxMap κ ν :=
  map ⊔ point key value

def raiseAll (map : MaxMap κ ν) (entries : List (κ × ν)) : MaxMap κ ν :=
  entries.foldl (fun current entry => current.raise entry.1 entry.2) map

omit [LinearOrder ν] in
@[simp] theorem point_self (key : κ) (value : ν) :
    point key value key = value := by
  simp [point]

omit [LinearOrder ν] in
theorem point_of_ne {key other : κ} (different : other ≠ key) (value : ν) :
    point key value other = ⊥ := by
  simp [point, different]

@[simp] theorem raise_self (map : MaxMap κ ν) (key : κ) (value : ν) :
    map.raise key value key = map key ⊔ value := by
  simp [raise]

theorem raise_of_ne (map : MaxMap κ ν) {key other : κ}
    (different : other ≠ key) (value : ν) :
    map.raise key value other = map other := by
  simp [raise, point_of_ne different]

@[simp] theorem raiseAll_nil (map : MaxMap κ ν) : map.raiseAll [] = map :=
  rfl

@[simp] theorem raiseAll_cons (map : MaxMap κ ν) (entry : κ × ν)
    (entries : List (κ × ν)) :
    map.raiseAll (entry :: entries) =
      (map.raise entry.1 entry.2).raiseAll entries :=
  rfl

theorem raiseAll_of_not_mem (map : MaxMap κ ν) {key : κ}
    {entries : List (κ × ν)} (absent : ∀ entry ∈ entries, entry.1 ≠ key) :
    map.raiseAll entries key = map key := by
  induction entries generalizing map with
  | nil => rfl
  | cons entry entries induction =>
      rw [raiseAll_cons, induction _ fun other member =>
        absent other (List.mem_cons_of_mem _ member)]
      exact map.raise_of_ne (absent entry (by simp)).symm _

theorem raiseAll_of_mem (map : MaxMap κ ν) {key : κ} {value : ν}
    {entries : List (κ × ν)} (present : (key, value) ∈ entries)
    (agree : ∀ entry ∈ entries, entry.1 = key → entry.2 = value) :
    map.raiseAll entries key = map key ⊔ value := by
  induction entries generalizing map with
  | nil => simp at present
  | cons entry entries induction =>
      have agreeTail : ∀ other ∈ entries, other.1 = key → other.2 = value :=
        fun other member => agree other (List.mem_cons_of_mem _ member)
      have headStep : map.raise entry.1 entry.2 key = map key ∨
          map.raise entry.1 entry.2 key = map key ⊔ value := by
        by_cases same : entry.1 = key
        · right
          rw [← agree entry (by simp) same, ← same, raise_self]
        · left
          exact map.raise_of_ne (Ne.symm same) _
      rw [raiseAll_cons]
      by_cases later : (key, value) ∈ entries
      · rw [induction _ later agreeTail]
        rcases headStep with kept | joined
        · rw [kept]
        · rw [joined, sup_assoc, sup_idem]
      · have headEqual : entry = (key, value) := by
          simpa [later, eq_comm] using present
        rw [raiseAll_of_not_mem, headEqual, raise_self]
        intro other member same
        have otherEqual : other = (key, value) :=
          Prod.ext same (agreeTail other member same)
        exact later (otherEqual ▸ member)

theorem mem_of_raiseAll {map : MaxMap κ ν} {key : κ} {value : ν}
    {entries : List (κ × ν)} (known : map.raiseAll entries key = value) :
    map key = value ∨ (key, value) ∈ entries := by
  induction entries generalizing map with
  | nil => exact Or.inl known
  | cons entry entries induction =>
      rw [raiseAll_cons] at known
      rcases induction known with earlier | later
      · by_cases same : key = entry.1
        · rw [same, raise_self] at earlier
          rcases le_total (map entry.1) (entry.2 : WithBot ν) with below | above
          · rw [sup_eq_right.mpr below, WithBot.coe_inj] at earlier
            right
            rw [same, ← earlier]
            exact List.mem_cons_self
          · rw [sup_eq_left.mpr above, ← same] at earlier
            exact Or.inl earlier
        · rw [raise_of_ne map same] at earlier
          exact Or.inl earlier
      · exact Or.inr (List.mem_cons_of_mem _ later)

/-- The entries list exactly the keys of `new` at which `old` differs, with
their new values. -/
structure Differences (old new : MaxMap κ ν) (entries : List (κ × ν)) :
    Prop where
  sound : ∀ entry ∈ entries, new entry.1 = entry.2 ∧ old entry.1 ≠ new entry.1
  complete : ∀ key (value : ν), new key = value → old key ≠ value →
    (key, value) ∈ entries

/-- Recording the differences between two maps on top of anything above the
older one is the join with the newer one. -/
theorem raiseAll_differences {old new map : MaxMap κ ν}
    {entries : List (κ × ν)} (differences : Differences old new entries)
    (above : old ≤ map) : map.raiseAll entries = map ⊔ new := by
  funext key
  have agree : ∀ entry ∈ entries, entry.1 = key → (entry.2 : WithBot ν) = new key := by
    intro entry member same
    rw [← same, (differences.sound entry member).1]
  by_cases changed : old key = new key
  · have absent : ∀ entry ∈ entries, entry.1 ≠ key := by
      intro entry member same
      exact (differences.sound entry member).2 (by rw [same, changed])
    rw [raiseAll_of_not_mem map absent, Pi.sup_apply, ← changed,
      sup_eq_left.mpr (above key)]
  · cases newValue : new key with
    | bot =>
        have absent : ∀ entry ∈ entries, entry.1 ≠ key := by
          intro entry member same
          have impossible := agree entry member same
          simp [newValue] at impossible
        rw [raiseAll_of_not_mem map absent, Pi.sup_apply, newValue, sup_bot_eq]
    | coe value =>
        have present : (key, value) ∈ entries :=
          differences.complete key value newValue (newValue ▸ changed)
        rw [raiseAll_of_mem map present, Pi.sup_apply, newValue]
        intro entry member same
        exact WithBot.coe_injective ((agree entry member same).trans newValue)

/-- The map knows exactly the keys for which some value was given, each with
the greatest of its values. -/
structure Collects (given : κ → ν → Prop) (map : MaxMap κ ν) : Prop where
  bounded : ∀ key value, given key value → value ≤ map key
  attained : ∀ key (value : ν), map key = value → given key value

namespace Collects

variable {given : κ → ν → Prop} {map other : MaxMap κ ν}

omit [DecidableEq κ] in
theorem bot : Collects (fun (_ : κ) (_ : ν) => False) ⊥ where
  bounded := by
    intro key value impossible
    exact impossible.elim
  attained := by
    intro key value impossible
    exact WithBot.bot_ne_coe impossible

omit [DecidableEq κ] in
theorem congr {others : κ → ν → Prop} (collects : Collects given map)
    (same : ∀ key value, given key value ↔ others key value) :
    Collects others map := by
  have equal : given = others := by
    funext key value
    exact propext (same key value)
  rwa [← equal]

theorem raise (collects : Collects given map) (key : κ) (value : ν) :
    Collects (fun other number => given other number ∨
      (other = key ∧ number = value)) (map.raise key value) where
  bounded := by
    rintro other number (earlier | ⟨rfl, rfl⟩)
    · exact (collects.bounded other number earlier).trans le_sup_left
    · rw [raise_self]
      exact le_sup_right
  attained := by
    intro other number stored
    by_cases same : other = key
    · subst same
      rw [raise_self] at stored
      rcases le_total (map other) (value : WithBot ν) with below | above
      · rw [sup_eq_right.mpr below] at stored
        exact Or.inr ⟨rfl, (WithBot.coe_inj.mp stored).symm⟩
      · rw [sup_eq_left.mpr above] at stored
        exact Or.inl (collects.attained other number stored)
    · rw [raise_of_ne map same] at stored
      exact Or.inl (collects.attained other number stored)

omit [DecidableEq κ] in
theorem le (left : Collects given map) (right : Collects given other) :
    map ≤ other := by
  intro key
  cases stored : map key with
  | bot => exact bot_le
  | coe value => exact right.bounded key value (left.attained key value stored)

omit [DecidableEq κ] in
theorem unique (left : Collects given map) (right : Collects given other) :
    map = other :=
  le_antisymm (left.le right) (right.le left)

omit [DecidableEq κ] in
theorem isGreatest (collects : Collects given map) {key : κ} {value : ν}
    (stored : map key = value) : IsGreatest {number | given key number} value := by
  refine ⟨collects.attained key value stored, ?_⟩
  intro number isGiven
  have below := collects.bounded key number isGiven
  rw [stored] at below
  exact WithBot.coe_le_coe.mp below

end Collects

end MaxMap

end ChronoShare
