import ChronoShare.ObjectStore.Store
import ChronoShare.Scheduler.Tags

/-!
# Hashes as texts

A text of hexadecimal digits is read as the bytes they stand for, two digits
for each.  What is printed of a hash is empty, however, as the call that prints
the digits is commented out.
-/

namespace ChronoShare

namespace Hash

/-- The values of the characters below 128; `-1` is no digit. -/
def lookupTable : List Int := [
  -1, -1, -1, -1, -1, -1, -1, -1, -1, -1, -1, -1, -1, -1, -1, -1,
  -1, -1, -1, -1, -1, -1, -1, -1, -1, -1, -1, -1, -1, -1, -1, -1,
  -1, -1, -1, -1, -1, -1, -1, -1, -1, -1, -1, -1, -1, -1, -1, -1,
  0, 1, 2, 3, 4, 5, 6, 7, 8, 9, -1, -1, -1, -1, -1, -1,
  -1, 10, 11, 12, 13, 14, 15, -1, -1, -1, -1, -1, -1, -1, -1, -1,
  -1, -1, -1, -1, -1, -1, -1, -1, -1, -1, -1, -1, -1, -1, -1, -1,
  -1, 10, 11, 12, 13, 14, 15, -1, -1, -1, -1, -1, -1, -1, -1, -1,
  -1, -1, -1, -1, -1, -1, -1, -1, -1, -1, -1, -1, -1, -1, -1, -1]

/-- `hex_to_4_bit`; `none` is the exception for what is no digit.  A character
from 128 on is negative, and beyond the table once it is unsigned. -/
def hexTo4Bit (ch : UInt8) : Option UInt8 :=
  match lookupTable[ch.toNat]? with
  | none => none
  | some value => if value = -1 then none else some (UInt8.ofNat value.toNat)

/-- `string_to_binary`, with the first digit of each pair in the upper bits.
After an odd number of digits the terminator is read, which is none. -/
def stringToBinary : Bytes → Option Bytes
  | [] => some []
  | [_] => none
  | high :: low :: rest => do
      let high ← hexTo4Bit high
      let low ← hexTo4Bit low
      let bytes ← stringToBinary rest
      return ((high <<< 4) ||| low) :: bytes

/-- `EVP_MAX_MD_SIZE`. -/
def maxSize : Nat := 64

/-- `FromString`; a text that is too long gives the empty hash. -/
def fromString (hashInTextEncoding : Bytes) : Option Hash :=
  if hashInTextEncoding.length = 0 then some []
  else if maxSize * 2 < hashInTextEncoding.length then some []
  else stringToBinary hashInTextEncoding

/-- Two hashes are read back from what is printed of them, and different ones
are printed differently. -/
structure Printable (left right : Hash) : Prop where
  leftReadBack : fromString left.printed = some left
  rightReadBack : fromString right.printed = some right
  distinct : left ≠ right → left.printed ≠ right.printed

theorem fromString_printed (hash : Hash) :
    fromString hash.printed = some [] := rfl

/-- Only the empty hash is read back from what is printed. -/
theorem printable_iff (left right : Hash) :
    Printable left right ↔ left = [] ∧ right = [] := by
  constructor
  · rintro ⟨leftReadBack, rightReadBack, -⟩
    rw [fromString_printed] at leftReadBack rightReadBack
    exact ⟨(Option.some.inj leftReadBack).symm,
      (Option.some.inj rightReadBack).symm⟩
  · rintro ⟨rfl, rfl⟩
    exact ⟨rfl, rfl, fun different => absurd rfl different⟩

/-- Two hashes of one byte are printed alike. -/
theorem one_byte_hashes_not_printable :
    ¬ ∀ left right : Hash, left.length ≤ maxSize →
      right.length ≤ maxSize → Printable left right := by
  intro printable
  have both := printable [1] [2] (by decide) (by decide)
  exact both.distinct (by decide) rfl

end Hash

end ChronoShare
