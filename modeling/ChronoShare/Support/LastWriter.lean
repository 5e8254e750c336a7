import ChronoShare.Support.Paired
import Mathlib.Order.Lattice

/-!
# Last-writer-wins registers

Writes carry stamps from a linear order.  A register applies a write unless
an earlier one has a greater stamp, and so holds the effect of the write with
the greatest stamp, in whatever order the writes arrive.
-/

namespace ChronoShare

variable {ρ κ ν : Type} {stamp : ρ → κ} {writes : List ρ}

/-- No two writes share a stamp. -/
def DistinctStamps (stamp : ρ → κ) (writes : List ρ) : Prop :=
  writes.Pairwise fun left right => stamp left ≠ stamp right

theorem DistinctStamps.eq_of_stamp_eq (distinct : DistinctStamps stamp writes)
    {left right : ρ} (leftIn : left ∈ writes) (rightIn : right ∈ writes)
    (equality : stamp left = stamp right) : left = right := by
  induction writes with
  | nil => simp at leftIn
  | cons head tail induction =>
      obtain ⟨headDistinct, tailDistinct⟩ := List.pairwise_cons.mp distinct
      rcases List.mem_cons.mp leftIn with rfl | leftLater
      · rcases List.mem_cons.mp rightIn with rfl | rightLater
        · rfl
        · exact absurd equality (headDistinct right rightLater)
      · rcases List.mem_cons.mp rightIn with rfl | rightLater
        · exact absurd equality.symm (headDistinct left leftLater)
        · exact induction tailDistinct leftLater rightLater

theorem DistinctStamps.init {write : ρ}
    (distinct : DistinctStamps stamp (writes ++ [write])) :
    DistinctStamps stamp writes :=
  (List.pairwise_append.mp distinct).1

variable [LinearOrder κ]

/-- `last` is the write with the greatest stamp. -/
def Latest (stamp : ρ → κ) (writes : List ρ) (last : ρ) : Prop :=
  last ∈ writes ∧ ∀ write ∈ writes, stamp write ≤ stamp last

theorem exists_latest (nonempty : writes ≠ []) :
    ∃ last, Latest stamp writes last := by
  induction writes with
  | nil => exact absurd rfl nonempty
  | cons head tail induction =>
      by_cases alone : tail = []
      · exact ⟨head, by simp [alone], by simp [alone]⟩
      · obtain ⟨last, member, greatest⟩ := induction alone
        rcases le_total (stamp head) (stamp last) with below | above
        · refine ⟨last, List.mem_cons_of_mem head member, ?_⟩
          intro write written
          rcases List.mem_cons.mp written with rfl | later
          · exact below
          · exact greatest write later
        · refine ⟨head, List.mem_cons_self, ?_⟩
          intro write written
          rcases List.mem_cons.mp written with rfl | later
          · exact le_rfl
          · exact (greatest write later).trans above

theorem Latest.eq (distinct : DistinctStamps stamp writes) {left right : ρ}
    (leftLatest : Latest stamp writes left)
    (rightLatest : Latest stamp writes right) : left = right := by
  apply distinct.eq_of_stamp_eq leftLatest.1 rightLatest.1
  exact le_antisymm (rightLatest.2 left leftLatest.1)
    (leftLatest.2 right rightLatest.1)

theorem latest_congr {others : List ρ}
    (same : ∀ write, write ∈ writes ↔ write ∈ others) {last : ρ} :
    Latest stamp writes last ↔ Latest stamp others last := by
  simp only [Latest, same]

theorem latest_append_of_not_exceeded {write : ρ}
    (notExceeded : ∀ earlier ∈ writes, stamp earlier ≤ stamp write) :
    Latest stamp (writes ++ [write]) write := by
  refine ⟨by simp, ?_⟩
  intro other member
  rcases List.mem_append.mp member with earlier | here
  · exact notExceeded other earlier
  · exact (congrArg stamp (List.mem_singleton.mp here)).le

theorem Latest.of_append_of_exceeded {write earlier last : ρ}
    (member : earlier ∈ writes) (exceeds : stamp write < stamp earlier)
    (latest : Latest stamp (writes ++ [write]) last) :
    Latest stamp writes last := by
  have bound : ∀ other ∈ writes, stamp other ≤ stamp last :=
    fun other written => latest.2 other (List.mem_append_left _ written)
  refine ⟨?_, bound⟩
  rcases List.mem_append.mp latest.1 with before | here
  · exact before
  · rw [List.mem_singleton.mp here] at bound
    exact absurd (bound earlier member) (not_le.mpr exceeds)

/-- The register holds what the latest write leaves behind. -/
def Settled (stamp : ρ → κ) (effect : ρ → Option ν) (writes : List ρ)
    (register : Option ν) : Prop :=
  (writes = [] → register = none) ∧
    ∀ last, Latest stamp writes last → register = effect last

variable {effect : ρ → Option ν} {register : Option ν}

theorem settled_nil : Settled stamp effect [] none := by
  refine ⟨fun _ => rfl, ?_⟩
  intro last latest
  exact absurd latest.1 List.not_mem_nil

theorem Settled.append_applied {write : ρ}
    (distinct : DistinctStamps stamp (writes ++ [write]))
    (notExceeded : ∀ earlier ∈ writes, stamp earlier ≤ stamp write) :
    Settled stamp effect (writes ++ [write]) (effect write) := by
  refine ⟨fun empty => absurd empty (by simp), ?_⟩
  intro last latest
  rw [latest.eq distinct (latest_append_of_not_exceeded notExceeded)]

theorem Settled.append_ignored {write earlier : ρ}
    (settled : Settled stamp effect writes register)
    (member : earlier ∈ writes) (exceeds : stamp write < stamp earlier) :
    Settled stamp effect (writes ++ [write]) register := by
  refine ⟨fun empty => absurd empty (by simp), ?_⟩
  intro last latest
  exact settled.2 last (latest.of_append_of_exceeded member exceeds)

theorem Settled.eq_some_iff
    (settled : Settled stamp effect writes register) {value : ν} :
    register = some value ↔
      ∃ last, Latest stamp writes last ∧ effect last = some value := by
  constructor
  · intro held
    by_cases empty : writes = []
    · rw [settled.1 empty] at held
      exact absurd held (by simp)
    · have found : ∃ last, Latest stamp writes last := exists_latest empty
      obtain ⟨last, latest⟩ := found
      exact ⟨last, latest, (settled.2 last latest).symm.trans held⟩
  · intro found
    obtain ⟨last, latest, leaves⟩ := found
    exact (settled.2 last latest).trans leaves

theorem Settled.transfer {σ : Type} {others : List σ} {otherStamp : σ → κ}
    {otherEffect : σ → Option ν}
    (settled : Settled stamp effect writes register)
    (paired : List.Forall₂ (fun other write =>
      stamp write = otherStamp other ∧ effect write = otherEffect other)
      others writes) :
    Settled otherStamp otherEffect others register := by
  constructor
  · intro empty
    apply settled.1
    rw [empty] at paired
    exact List.forall₂_nil_left_iff.mp paired
  · intro last latest
    obtain ⟨write, written, sameStamp, sameEffect⟩ :=
      exists_of_mem_left paired latest.1
    rw [← sameEffect]
    apply settled.2
    refine ⟨written, ?_⟩
    intro other member
    obtain ⟨source, sourceIn, stamped, _⟩ := exists_of_mem_right paired member
    rw [stamped, sameStamp]
    exact latest.2 source sourceIn

end ChronoShare
