import Mathlib.Algebra.Group.Int.Defs
import Mathlib.Algebra.Group.Nat.Defs
import Mathlib.Data.List.Lex
import Mathlib.Order.Lattice

/-!
# Fixed-width integers and byte strings

Byte strings carry the lexicographic order in which a blob column is compared,
and signed 64-bit integers their usual linear order.  The second half lays an
unsigned integer out as a fixed number of bytes and shows that the layout
determines the integer.
-/

namespace ChronoShare

abbrev Bytes := List UInt8

instance uint8LinearOrder : LinearOrder UInt8 where
  le_refl := UInt8.le_refl
  le_trans _ _ _ := UInt8.le_trans
  lt_iff_le_not_ge left right := by
    rw [UInt8.not_le]
    exact ⟨fun less => ⟨UInt8.le_of_lt less, less⟩, And.right⟩
  le_antisymm _ _ := UInt8.le_antisymm
  le_total := UInt8.le_total
  toDecidableLE := inferInstance
  toDecidableLT := inferInstance
  toDecidableEq := inferInstance

instance int64LinearOrder : LinearOrder Int64 where
  le_refl := Int64.le_refl
  le_trans _ _ _ := Int64.le_trans
  lt_iff_le_not_ge left right := by
    rw [Int64.not_le]
    exact ⟨fun less => ⟨Int64.le_of_lt less, less⟩, And.right⟩
  le_antisymm _ _ := Int64.le_antisymm
  le_total := Int64.le_total
  toDecidableLE := inferInstance
  toDecidableLT := inferInstance
  toDecidableEq := inferInstance

instance uint8LawfulBEq : LawfulBEq UInt8 := inferInstance

instance bytesLawfulBEq : LawfulBEq Bytes := inferInstance

instance int64LawfulBEq : LawfulBEq Int64 := inferInstance

theorem int64_lt_succ {number : Int64}
    (defined : number + 1 ≠ Int64.minValue) : number < number + 1 := by
  have low := Int64.le_toInt number
  have high := Int64.toInt_lt number
  have one : (1 : Int64).toInt = 1 := by decide
  rw [Int64.lt_iff_toInt_lt, Int64.toInt_add, one]
  by_cases greatest : number.toInt + 1 < 2 ^ 63
  · rw [Int.bmod_eq_of_le (by omega) (by omega)]
    omega
  · have last : number.toInt = 2 ^ 63 - 1 := by omega
    have wrapped : number + 1 = Int64.minValue := by
      apply Int64.toInt_inj.mp
      rw [Int64.toInt_add, one, last]
      decide
    exact absurd wrapped defined

theorem int64_toInt_succ {number bound : Int64} (below : number < bound) :
    (number + 1).toInt = number.toInt + 1 := by
  have low := Int64.le_toInt number
  have high := Int64.toInt_lt bound
  have one : (1 : Int64).toInt = 1 := by decide
  rw [Int64.lt_iff_toInt_lt] at below
  rw [Int64.toInt_add, one, Int.bmod_eq_of_le (by omega) (by omega)]

theorem int64_lt_succ_of_lt {number bound : Int64} (below : number < bound) :
    number < number + 1 := by
  rw [Int64.lt_iff_toInt_lt, int64_toInt_succ below]
  exact Int.lt_succ number.toInt

theorem int64_succ_le {number bound : Int64} (below : number < bound) :
    number + 1 ≤ bound := by
  rw [Int64.le_iff_toInt_le, int64_toInt_succ below]
  exact Int64.lt_iff_toInt_lt.mp below

theorem int64_le_succ_iff {number bound other : Int64}
    (below : number < bound) :
    other ≤ number + 1 ↔ other ≤ number ∨ other = number + 1 := by
  rw [← Int64.toInt_inj, Int64.le_iff_toInt_le, Int64.le_iff_toInt_le,
    int64_toInt_succ below]
  omega

theorem int64_lt_succ_iff {number : Int64} :
    number < number + 1 ↔ number ≠ Int64.maxValue := by
  constructor
  · rintro above rfl
    exact absurd above (by decide)
  · intro bounded
    apply int64_lt_succ
    intro wrapped
    have last : number = Int64.minValue - 1 := by
      rw [← wrapped, Int64.add_sub_cancel]
    exact bounded (last.trans (by decide))

theorem int64_eq_of_lt_succ {number other : Int64} (low : number ≤ other)
    (high : other < number + 1) : other = number := by
  have next := int64_toInt_succ (lt_of_le_of_lt low high)
  rw [Int64.lt_iff_toInt_lt, next] at high
  rw [Int64.le_iff_toInt_le] at low
  apply Int64.toInt_inj.mp
  omega

theorem toInt_toInt64 (number : UInt64) :
    number.toInt64.toInt =
      if number.toNat < 2 ^ 63 then (number.toNat : Int)
      else number.toNat - 2 ^ 64 := by
  have signed : number.toInt64.toInt = number.toBitVec.toInt := rfl
  rw [signed, BitVec.toInt_eq_toNat_cond, UInt64.toNat_toBitVec]
  split_ifs <;> omega

theorem toInt_of_uint32 (number : UInt32) :
    number.toUInt64.toInt64.toInt = number.toNat := by
  have small : number.toNat < 2 ^ 32 := number.toNat_lt
  rw [toInt_toInt64, UInt32.toNat_toUInt64, if_pos (by omega)]

theorem uint32_toNat_succ {number limit : UInt32} (room : number < limit) :
    (number + 1).toNat = number.toNat + 1 := by
  have bound := limit.toNat_lt
  have below := UInt32.lt_iff_toNat_lt.mp room
  rw [UInt32.toNat_add, UInt32.toNat_one]
  exact Nat.mod_eq_of_lt (by omega)

@[simp] theorem int32_of_widened (number : Int32) :
    number.toInt64.toUInt64.toUInt32.toInt32 = number := by
  have bits : number.toInt64.toUInt64.toUInt32.toInt32.toBitVec =
      BitVec.setWidth 32 (BitVec.signExtend 64 number.toBitVec) := by
    simp
  apply Int32.toBitVec_inj.mp
  rw [bits]
  ext index bound
  simp only [BitVec.getElem_setWidth, BitVec.getLsbD_signExtend]
  grind

/-- The low `width` bytes of an unsigned integer, least significant first. -/
def littleEndian : Nat → Nat → Bytes
  | 0, _ => []
  | width + 1, value =>
      UInt8.ofNat value :: littleEndian width (value / 256)

/-- The low `width` bytes of an unsigned integer, most significant first. -/
def bigEndian (width value : Nat) : Bytes :=
  (littleEndian width value).reverse

@[simp] theorem length_littleEndian (width value : Nat) :
    (littleEndian width value).length = width := by
  induction width generalizing value with
  | zero => rfl
  | succ width induction => simp [littleEndian, induction]

@[simp] theorem length_bigEndian (width value : Nat) :
    (bigEndian width value).length = width := by
  simp [bigEndian]

theorem littleEndian_injOn
    {width left right : Nat}
    (leftBound : left < 256 ^ width) (rightBound : right < 256 ^ width)
    (equality : littleEndian width left = littleEndian width right) :
    left = right := by
  induction width generalizing left right with
  | zero => simp_all
  | succ width induction =>
      simp only [littleEndian, List.cons.injEq] at equality
      obtain ⟨lowEqual, highEqual⟩ := equality
      have lowDigits : left % 256 = right % 256 := by
        simpa using congrArg UInt8.toNat lowEqual
      have highDigits : left / 256 = right / 256 :=
        induction
          (Nat.div_lt_of_lt_mul (by rwa [Nat.pow_succ'] at leftBound))
          (Nat.div_lt_of_lt_mul (by rwa [Nat.pow_succ'] at rightBound))
          highEqual
      rw [← Nat.div_add_mod left 256, ← Nat.div_add_mod right 256,
        lowDigits, highDigits]

theorem bigEndian_injOn
    {width left right : Nat}
    (leftBound : left < 256 ^ width) (rightBound : right < 256 ^ width)
    (equality : bigEndian width left = bigEndian width right) :
    left = right :=
  littleEndian_injOn leftBound rightBound
    (List.reverse_injective equality)

end ChronoShare
