import ChronoShare.ObjectStore.Store
import Mathlib.Data.Nat.Digits.Lemmas

/-!
# Names of the content-centric network

A name is a list of components, which are printed one by one.  A number is a
component of its own: a zero byte, then the bytes of the number from the least
significant one, as many as it needs.
-/

namespace ChronoShare

namespace Ccnx

structure Name where
  comps : List Bytes
  deriving DecidableEq, Repr

inductive NameException where
  | negativeIndex (index : Int)
  | indexOutOfRange (index : Int)
  | nonInteger (comp : Bytes)
  | partialName (start n size : Int)
  deriving DecidableEq, Repr

def isprint (byte : UInt8) : Bool :=
  0x20 ≤ byte ∧ byte ≤ 0x7E

/-- The loop of `getCompAsString`: any other byte is printed as a percent sign
and two digits. -/
def printComp (comp : Bytes) : Bytes :=
  comp.flatMap fun byte =>
    if isprint byte then [byte] else 0x25 :: hexText [byte]

def NameException.text : NameException → String
  | .negativeIndex index => "Negative index: " ++ toString index
  | .indexOutOfRange index => "Index out of range: " ++ toString index
  | .nonInteger comp => "Non integer component: " ++
      String.ofList ((printComp comp).map fun byte => Char.ofNat byte.toNat)
  | .partialName start n size => "getPartialName() parameter out of range! " ++
      "start = " ++ toString start ++ "n = " ++ toString n ++
      "size = " ++ toString size

namespace Name

def size (name : Name) : Nat :=
  name.comps.length

def appendComp (name : Name) (comp : Bytes) : Name :=
  ⟨name.comps ++ [comp]⟩

def append (left right : Name) : Name :=
  ⟨left.comps ++ right.comps⟩

/-- The loop of `appendComp (uint64_t)`. -/
def numberBytes (number : UInt64) : Bytes :=
  if 0 < number then
    (number &&& 0xFF).toUInt8 :: numberBytes (number >>> 8)
  else
    []
termination_by number.toNat
decreasing_by
  rename_i positive
  rw [UInt64.toNat_shiftRight, Nat.shiftRight_eq_div_pow]
  exact Nat.div_lt_self (UInt64.lt_iff_toNat_lt.mp positive) (by decide)

/-- `appendComp (uint64_t)`. -/
def appendNumber (name : Name) (number : UInt64) : Name :=
  name.appendComp (0 :: numberBytes number)

def getComp (name : Name) (index : Int) : Except NameException Bytes :=
  if index < 0 then
    .error (.negativeIndex index)
  else
    match name.comps[index.toNat]? with
    | none => .error (.indexOutOfRange index)
    | some comp => .ok comp

def getCompAsString (name : Name) (index : Int) :
    Except NameException Bytes :=
  (name.getComp index).map printComp

/-- The loop of `getCompAsInt`, from the last byte to the second one. -/
def bytesNumber (bytes : Bytes) : UInt64 :=
  bytes.foldr (fun byte ret => (ret <<< 8) ||| byte.toUInt64) 0

def getCompAsInt (name : Name) (index : Int) :
    Except NameException UInt64 := do
  let comp ← name.getComp index
  if comp.head? = some 0 then
    return bytesNumber comp.tail
  else
    throw (.nonInteger comp)

/-- All the components from `start` on, unless `n` is positive. -/
def getPartialName (name : Name) (start n : Int) :
    Except NameException Name :=
  let size : Int := name.size
  if start < 0 ∨ start ≥ size ∨ (0 < n ∧ start + n > size) then
    .error (.partialName start n size)
  else if 0 < n then
    .ok ⟨(name.comps.drop start.toNat).take n.toNat⟩
  else
    .ok ⟨name.comps.drop start.toNat⟩

theorem numberBytes_digits (number : UInt64) :
    (numberBytes number).map UInt8.toNat = Nat.digits 256 number.toNat := by
  fun_induction numberBytes number with
  | case1 number positive induction =>
      have some : 0 < number.toNat := UInt64.lt_iff_toNat_lt.mp positive
      have low : ((number &&& 0xFF).toUInt8).toNat = number.toNat % 256 := by
        have mask : number.toNat &&& 255 = number.toNat % 256 :=
          Nat.and_two_pow_sub_one_eq_mod number.toNat 8
        rw [UInt64.toNat_toUInt8, UInt64.toNat_and]
        exact (congrArg (· % 256) mask).trans (Nat.mod_mod _ _)
      have high : (number >>> 8).toNat = number.toNat / 256 := by
        rw [UInt64.toNat_shiftRight, Nat.shiftRight_eq_div_pow]
        rfl
      rw [List.map_cons, induction, low, high,
        Nat.digits_def' (by decide) some]
  | case2 number zero =>
      have none : number.toNat = 0 := by
        rw [UInt64.lt_iff_toNat_lt] at zero
        exact Nat.eq_zero_of_not_pos zero
      rw [none, Nat.digits_zero]
      rfl

theorem toNat_shiftLeft_or {number : UInt64} (room : number.toNat < 2 ^ 56)
    (byte : UInt8) :
    ((number <<< 8) ||| byte.toUInt64).toNat =
      byte.toNat + 256 * number.toNat := by
  have small : byte.toNat < 2 ^ 8 := byte.toNat_lt
  have shifted : (number <<< 8).toNat = 2 ^ 8 * number.toNat := by
    rw [UInt64.toNat_shiftLeft, Nat.shiftLeft_eq]
    have fits : number.toNat * 2 ^ 8 < 2 ^ 64 := by omega
    rw [Nat.mul_comm] at fits ⊢
    exact Nat.mod_eq_of_lt fits
  rw [UInt64.toNat_or, shifted, UInt8.toNat_toUInt64,
    ← Nat.two_pow_add_eq_or_of_lt small]
  exact Nat.add_comm _ _

theorem toNat_lt_of_mem {bytes : Bytes} :
    ∀ digit ∈ bytes.map UInt8.toNat, digit < 256 := by
  intro digit member
  obtain ⟨byte, -, rfl⟩ := List.mem_map.mp member
  exact byte.toNat_lt

theorem bytesNumber_digits {bytes : Bytes} (short : bytes.length ≤ 8) :
    (bytesNumber bytes).toNat = Nat.ofDigits 256 (bytes.map UInt8.toNat) := by
  induction bytes with
  | nil => rfl
  | cons byte bytes induction =>
      have shorter : bytes.length ≤ 7 := Nat.le_of_succ_le_succ short
      have rest := induction (Nat.le_of_succ_le short)
      have room : (bytesNumber bytes).toNat < 2 ^ 56 := by
        calc
          (bytesNumber bytes).toNat < 256 ^ (bytes.map UInt8.toNat).length := by
            rw [rest]
            exact Nat.ofDigits_lt_base_pow_length (by decide) toNat_lt_of_mem
          _ ≤ 256 ^ 7 := by
            rw [List.length_map]
            exact Nat.pow_le_pow_right (by decide) shorter
          _ = 2 ^ 56 := by norm_num
      rw [List.map_cons, Nat.ofDigits_cons, ← rest]
      exact toNat_shiftLeft_or room byte

theorem length_numberBytes (number : UInt64) :
    (numberBytes number).length ≤ 8 := by
  rw [← List.length_map UInt8.toNat, numberBytes_digits]
  apply (Nat.digits_length_le_iff (by decide) _).mpr
  have bound := number.toNat_lt
  norm_num
  exact bound

theorem bytesNumber_numberBytes (number : UInt64) :
    bytesNumber (numberBytes number) = number := by
  apply UInt64.toNat_inj.mp
  rw [bytesNumber_digits (length_numberBytes number), numberBytes_digits,
    Nat.ofDigits_digits]

/-- The bytes of a number do not end in a zero byte, and all other strings of
up to eight bytes are the bytes of a number. -/
theorem numberBytes_bytesNumber_iff {bytes : Bytes} (short : bytes.length ≤ 8) :
    numberBytes (bytesNumber bytes) = bytes ↔ bytes.getLast? ≠ some 0 := by
  have injective : Function.Injective UInt8.toNat := fun _ _ same =>
    UInt8.toNat_inj.mp same
  have canonical : numberBytes (bytesNumber bytes) = bytes ↔
      Nat.digits 256 (Nat.ofDigits 256 (bytes.map UInt8.toNat)) =
        bytes.map UInt8.toNat := by
    rw [← bytesNumber_digits short, ← numberBytes_digits]
    exact injective.list_map.eq_iff.symm
  rw [canonical]
  constructor
  · intro digits last
    obtain ⟨front, rfl⟩ := List.getLast?_eq_some_iff.mp last
    have ends : (Nat.digits 256 (Nat.ofDigits 256
        ((front ++ [0]).map UInt8.toNat))).getLast? = some 0 := by
      rw [digits]
      simp
    have nonzero : Nat.ofDigits 256 ((front ++ [0]).map UInt8.toNat) ≠ 0 := by
      intro zero
      rw [zero] at ends
      cases ends
    rw [List.getLast?_eq_some_getLast
      (Nat.digits_ne_nil_iff_ne_zero.mpr nonzero)] at ends
    exact Nat.getLast_digit_ne_zero 256 nonzero (Option.some.inj ends)
  · intro nonzero
    apply Nat.digits_ofDigits 256 (by decide) _ toNat_lt_of_mem
    intro nonempty zero
    apply nonzero
    rw [List.getLast_map] at zero
    rw [List.getLast?_eq_some_getLast (by simpa using nonempty)]
    exact congrArg some (UInt8.toNat_inj.mp zero)

theorem getComp_appendComp (name : Name) (comp : Bytes) :
    (name.appendComp comp).getComp name.size = .ok comp := by
  have nonnegative : ¬ (name.size : Int) < 0 := by omega
  rw [getComp, if_neg nonnegative, Int.toNat_natCast, appendComp, size,
    List.getElem?_concat_length]

theorem getCompAsInt_appendNumber (name : Name) (number : UInt64) :
    (name.appendNumber number).getCompAsInt name.size = .ok number := by
  rw [getCompAsInt, appendNumber, getComp_appendComp]
  exact congrArg Except.ok (bytesNumber_numberBytes number)

theorem getCompAsInt_cases {name : Name} {index : Int} {comp : Bytes}
    {number : UInt64} (here : name.getComp index = .ok comp)
    (read : name.getCompAsInt index = .ok number) :
    ∃ bytes, comp = 0 :: bytes ∧ number = bytesNumber bytes := by
  have marked : (if comp.head? = some 0 then .ok (bytesNumber comp.tail)
      else .error (.nonInteger comp) : Except NameException UInt64) =
        .ok number := by
    rw [getCompAsInt, here] at read
    exact read
  split_ifs at marked with zero
  obtain ⟨bytes, rfl⟩ := List.head?_eq_some_iff.mp zero
  exact ⟨bytes, rfl, (Except.ok.inj marked).symm⟩

/-- A number is read back from the component that is appended for it, and a
component of up to nine bytes is appended again for the number read from it
unless it has a zero byte at its end after the first one. -/
theorem numbers_read_back :
    (∀ (name : Name) (number : UInt64),
      (name.appendNumber number).getCompAsInt name.size = .ok number) ∧
    ∀ (name : Name) (index : Int) (comp : Bytes) (number : UInt64),
      name.getComp index = .ok comp → comp.length ≤ 9 →
        name.getCompAsInt index = .ok number → ∀ other : Name,
          (other.appendNumber number).getComp other.size = .ok comp ↔
            comp = [0] ∨ comp.getLast? ≠ some 0 := by
  refine ⟨getCompAsInt_appendNumber, ?_⟩
  intro name index comp number here short read other
  obtain ⟨bytes, rfl, rfl⟩ := getCompAsInt_cases here read
  have shorter : bytes.length ≤ 8 := Nat.le_of_succ_le_succ short
  have again : (other.appendNumber (bytesNumber bytes)).getComp other.size =
      .ok (0 :: bytes) ↔ numberBytes (bytesNumber bytes) = bytes := by
    rw [appendNumber, getComp_appendComp, Except.ok.injEq, List.cons.injEq]
    exact and_iff_right rfl
  rw [again, numberBytes_bytesNumber_iff shorter]
  cases bytes with
  | nil => simp
  | cons byte bytes => simp [List.getLast?_cons_cons]

/-- The number 256, with a zero byte that is not at the end. -/
theorem numbers_read_back_256 :
    (Name.appendNumber ⟨[]⟩ 256).getComp 0 = .ok [0, 0, 1] := by
  have again := numbers_read_back.2 ⟨[[0, 0, 1]]⟩ 0 [0, 0, 1] 256 rfl
    (by decide) rfl ⟨[]⟩
  exact again.mpr (.inr (by decide))

end Name

end Ccnx

end ChronoShare
