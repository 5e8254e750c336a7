import ChronoShare.Ndn.NameOps
import Mathlib.Data.UInt

/-!
# Names and their wire encoding

A name is a list of components whose encoding has a size a machine word can
hold.  On the wire it is a type-length-value block of component blocks, and
such blocks are self-delimiting.
-/

namespace ChronoShare

/-- The value of an encoded name: its component blocks in a row. -/
def encodeComponents (components : List Bytes) : Bytes :=
  components.flatMap (encodeTlv 0x08)

structure Name where
  components : List Bytes
  fits : (encodeComponents components).length < 2 ^ 64
  deriving DecidableEq

namespace Name

def wireEncode (name : Name) : Bytes :=
  encodeTlv 0x07 (encodeComponents name.components)

theorem eq_of_components {left right : Name}
    (equality : left.components = right.components) : left = right := by
  cases left
  cases right
  simpa using equality

theorem length_le_encodeComponents {components : List Bytes}
    {component : Bytes} (member : component ∈ components) :
    component.length ≤ (encodeComponents components).length := by
  induction components with
  | nil => simp at member
  | cons head tail induction =>
      have headBound := length_lt_encodeTlv 0x08 head
      simp only [encodeComponents, List.flatMap_cons, List.length_append]
        at induction ⊢
      rcases List.mem_cons.mp member with rfl | later
      · omega
      · have tailBound := induction later
        omega

theorem encodeComponents_injOn {left right : List Bytes}
    (leftFits : (encodeComponents left).length < 2 ^ 64)
    (rightFits : (encodeComponents right).length < 2 ^ 64)
    (equality : encodeComponents left = encodeComponents right) :
    left = right := by
  apply (encodeTlv_selfDelimiting 0x08).flatMap_injOn (encodeTlv_ne_nil 0x08)
  · intro component member
    exact (length_le_encodeComponents member).trans_lt leftFits
  · intro component member
    exact (length_le_encodeComponents member).trans_lt rightFits
  · exact equality

theorem wireEncode_selfDelimiting : SelfDelimiting wireEncode := by
  intro left right leftRest rightRest equality
  obtain ⟨values, rests⟩ := encodeTlv_selfDelimiting 0x07 _ _ _ _
    left.fits right.fits equality
  exact ⟨eq_of_components
    (encodeComponents_injOn left.fits right.fits values), rests⟩

theorem fits_nil : (encodeComponents []).length < 2 ^ 64 := by
  decide

/-- A name from its components, the empty name when they do not fit. -/
def ofComponents (components : List Bytes) : Name :=
  if fits : (encodeComponents components).length < 2 ^ 64 then
    ⟨components, fits⟩
  else
    ⟨[], fits_nil⟩

/-- The blob bound with the value of the encoded name but the size of the
whole block: it runs past the value by the length of the block's header. -/
def valueBlob (name : Name) : Bytes :=
  encodeComponents name.components ++
    List.replicate (name.wireEncode.length -
      (encodeComponents name.components).length) 0

/-- A number component: one, two, four or eight bytes, most significant
first. -/
def encodeNumber (number : UInt64) : Bytes :=
  if number < 2 ^ 8 then
    bigEndian 1 number.toNat
  else if number < 2 ^ 16 then
    bigEndian 2 number.toNat
  else if number < 2 ^ 32 then
    bigEndian 4 number.toNat
  else
    bigEndian 8 number.toNat

/-- The operations on concrete names, for a given reading of strings. -/
def ops (ofString : Bytes → Option Name) : NameOps Name where
  wire := wireEncode
  value := valueBlob
  ofString := ofString
  append name component := ofComponents (name.components ++ [component])
  appendName name other := ofComponents (name.components ++ other.components)
  appendNumber name number :=
    ofComponents (name.components ++ [encodeNumber number])

/-- The name `/alex`. -/
def alex : Name :=
  ofComponents [[0x61, 0x6C, 0x65, 0x78]]

/-- The name `/bob`. -/
def bob : Name :=
  ofComponents [[0x62, 0x6F, 0x62]]

/-- The name `/broadcast`. -/
def broadcast : Name :=
  ofComponents [[0x62, 0x72, 0x6F, 0x61, 0x64, 0x63, 0x61, 0x73, 0x74]]

/-- The operations with strings read as wire encodings. -/
noncomputable def wireOps : NameOps Name :=
  ops (Function.partialInv wireEncode)

theorem wireOps_faithful : wireOps.Faithful :=
  Function.partialInv_left wireEncode_selfDelimiting.injective

end Name

end ChronoShare
