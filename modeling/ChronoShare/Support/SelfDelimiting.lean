import ChronoShare.Support.FixedWidth
import Mathlib.Logic.Function.Basic

/-!
# Self-delimiting codes

A code is self-delimiting when a code word can be split off the front of any
longer string in at most one way.  Such codes compose, so that the
concatenation of a list of code words determines the list.  The
type-length-value encoding at the end is the instance used for names.
-/

namespace ChronoShare

variable {α β γ : Type}

/-- Splitting a code word of a member of `domain` off the front of a string
is unambiguous. -/
def SelfDelimitingOn (domain : α → Prop) (code : α → List γ) : Prop :=
  ∀ left right leftRest rightRest, domain left → domain right →
    code left ++ leftRest = code right ++ rightRest →
      left = right ∧ leftRest = rightRest

/-- Splitting a code word off the front of a string is unambiguous. -/
def SelfDelimiting (code : α → List γ) : Prop :=
  ∀ left right leftRest rightRest,
    code left ++ leftRest = code right ++ rightRest →
      left = right ∧ leftRest = rightRest

theorem SelfDelimiting.injective {code : α → List γ}
    (selfDelimiting : SelfDelimiting code) : Function.Injective code := by
  intro left right equality
  exact (selfDelimiting left right [] [] (by simp [equality])).1

theorem SelfDelimitingOn.flatMap_injOn
    {domain : α → Prop} {code : α → List γ}
    (selfDelimiting : SelfDelimitingOn domain code)
    (nonempty : ∀ value, code value ≠ [])
    {left right : List α}
    (leftIn : ∀ value ∈ left, domain value)
    (rightIn : ∀ value ∈ right, domain value)
    (equality : left.flatMap code = right.flatMap code) :
    left = right := by
  induction left generalizing right with
  | nil =>
      cases right with
      | nil => rfl
      | cons head tail => simp [nonempty head] at equality
  | cons head tail induction =>
      cases right with
      | nil => simp [nonempty head] at equality
      | cons other others =>
          simp only [List.flatMap_cons] at equality
          obtain ⟨headEqual, tailsEqual⟩ :=
            selfDelimiting head other _ _ (leftIn head (by simp))
              (rightIn other (by simp)) equality
          subst headEqual
          have rest : tail = others :=
            induction (fun value member => leftIn value (by simp [member]))
              (fun value member => rightIn value (by simp [member]))
              tailsEqual
          rw [rest]

theorem SelfDelimiting.flatMap_injective {code : α → List γ}
    (selfDelimiting : SelfDelimiting code) (nonempty : ∀ value, code value ≠ []) :
    Function.Injective fun values : List α => values.flatMap code := by
  have everywhere : SelfDelimitingOn (fun _ => True) code :=
    fun left right leftRest rightRest _ _ =>
      selfDelimiting left right leftRest rightRest
  intro left right same
  exact everywhere.flatMap_injOn nonempty (fun _ _ => trivial)
    (fun _ _ => trivial) same

theorem lengthPrefixed_selfDelimiting
    {header : Nat → List γ} {bound : Nat}
    (delimited : SelfDelimitingOn (· < bound) header) :
    SelfDelimitingOn (fun payload : List γ => payload.length < bound)
      (fun payload => header payload.length ++ payload) := by
  intro left right leftRest rightRest leftFits rightFits equality
  simp only [List.append_assoc] at equality
  obtain ⟨sameLength, bodies⟩ :=
    delimited _ _ _ _ leftFits rightFits equality
  exact List.append_inj bodies sameLength

/-- The variable-length number that states the size of a value. -/
def encodeVarNumber (number : Nat) : Bytes :=
  if number < 253 then
    [UInt8.ofNat number]
  else if number < 2 ^ 16 then
    253 :: bigEndian 2 number
  else if number < 2 ^ 32 then
    254 :: bigEndian 4 number
  else
    255 :: bigEndian 8 number

def encodeTlv (type : UInt8) (value : Bytes) : Bytes :=
  type :: (encodeVarNumber value.length ++ value)

private theorem encodeVarNumber_head {number : Nat} (large : ¬ number < 253) :
    ∃ marker width, 253 ≤ marker ∧ (number < 2 ^ 64 → number < 256 ^ width) ∧
      (width = if marker = 253 then 2 else if marker = 254 then 4 else 8) ∧
      encodeVarNumber number = marker :: bigEndian width number := by
  by_cases twoBytes : number < 2 ^ 16
  · refine ⟨253, 2, by decide, by omega, by simp, ?_⟩
    rw [encodeVarNumber, if_neg large, if_pos twoBytes]
  · by_cases fourBytes : number < 2 ^ 32
    · refine ⟨254, 4, by decide, by omega, by simp, ?_⟩
      rw [encodeVarNumber, if_neg large, if_neg twoBytes, if_pos fourBytes]
    · refine ⟨255, 8, by decide, by omega, by simp, ?_⟩
      rw [encodeVarNumber, if_neg large, if_neg twoBytes, if_neg fourBytes]

theorem encodeVarNumber_selfDelimiting :
    SelfDelimitingOn (· < 2 ^ 64) encodeVarNumber := by
  intro left right leftRest rightRest leftFits rightFits equality
  by_cases leftSmall : left < 253
  · by_cases rightSmall : right < 253
    · simp only [encodeVarNumber, leftSmall, rightSmall, if_true,
        List.cons_append, List.nil_append, List.cons.injEq] at equality
      have digits : left % 256 = right % 256 := by
        simpa using congrArg UInt8.toNat equality.1
      exact ⟨by omega, equality.2⟩
    · obtain ⟨marker, width, atLeast, -, -, shape⟩ :=
        encodeVarNumber_head rightSmall
      rw [shape] at equality
      simp only [encodeVarNumber, leftSmall, if_true, List.cons_append,
        List.cons.injEq] at equality
      have headValue : left % 256 = marker.toNat := by
        simpa using congrArg UInt8.toNat equality.1
      have markerLarge : 253 ≤ marker.toNat := atLeast
      omega
  · obtain ⟨leftMarker, leftWidth, leftLarge, leftBound, leftSize,
      leftShape⟩ := encodeVarNumber_head leftSmall
    by_cases rightSmall : right < 253
    · rw [leftShape] at equality
      simp only [encodeVarNumber, rightSmall, if_true, List.cons_append,
        List.cons.injEq] at equality
      have headValue : leftMarker.toNat = right % 256 := by
        simpa using congrArg UInt8.toNat equality.1
      have markerLarge : 253 ≤ leftMarker.toNat := leftLarge
      omega
    · obtain ⟨rightMarker, rightWidth, -, rightBound, rightSize,
        rightShape⟩ := encodeVarNumber_head rightSmall
      rw [leftShape, rightShape] at equality
      simp only [List.cons_append, List.cons.injEq] at equality
      obtain ⟨sameMarker, digits⟩ := equality
      have sameWidth : leftWidth = rightWidth := by
        rw [leftSize, rightSize, sameMarker]
      subst sameWidth
      obtain ⟨numbers, rests⟩ := List.append_inj digits (by simp)
      exact ⟨bigEndian_injOn (leftBound leftFits) (rightBound rightFits)
        numbers, rests⟩

theorem encodeTlv_selfDelimiting (type : UInt8) :
    SelfDelimitingOn (fun value : Bytes => value.length < 2 ^ 64)
      (encodeTlv type) := by
  intro left right leftRest rightRest leftFits rightFits equality
  simp only [encodeTlv, List.cons_append, List.cons.injEq, true_and]
    at equality
  exact lengthPrefixed_selfDelimiting encodeVarNumber_selfDelimiting
    left right leftRest rightRest leftFits rightFits equality

theorem encodeTlv_ne_nil (type : UInt8) (value : Bytes) :
    encodeTlv type value ≠ [] := by
  simp [encodeTlv]

theorem length_lt_encodeTlv (type : UInt8) (value : Bytes) :
    value.length < (encodeTlv type value).length := by
  simp only [encodeTlv, List.length_cons, List.length_append]
  omega

end ChronoShare
