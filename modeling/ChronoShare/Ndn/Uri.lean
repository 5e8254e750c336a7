import ChronoShare.Ndn.Name
import Mathlib.Data.List.Basic

/-!
# Names read from strings

A name built from a string reads the string as a URI: an optional scheme and
authority, then a path of percent-encoded components.  The wire encoding of a
name is not the URI of that name, and the count of one byte shows it: reading
a path loses no byte equal to the type number of a name, and the wire encoding
has one more of them than the components.
-/

namespace ChronoShare

namespace Uri

def slash : UInt8 := 0x2F

def colon : UInt8 := 0x3A

def percent : UInt8 := 0x25

def period : UInt8 := 0x2E

def isAlpha (byte : UInt8) : Bool :=
  (0x41 ≤ byte ∧ byte ≤ 0x5A) ∨ (0x61 ≤ byte ∧ byte ≤ 0x7A)

def isDigit (byte : UInt8) : Bool :=
  0x30 ≤ byte ∧ byte ≤ 0x39

/-- The bytes of a scheme after its first letter: letters, digits and
`+`, `-`, `.`. -/
def isSchemeByte (byte : UInt8) : Bool :=
  isAlpha byte || isDigit byte || byte ∈ [0x2B, 0x2D, 0x2E]

def hexDigit (byte : UInt8) : Option UInt8 :=
  if 0x30 ≤ byte ∧ byte ≤ 0x39 then
    some (byte - 0x30)
  else if 0x41 ≤ byte ∧ byte ≤ 0x46 then
    some (byte - 0x37)
  else if 0x61 ≤ byte ∧ byte ≤ 0x66 then
    some (byte - 0x57)
  else
    none

/-- The byte written as a percent sign and two hexadecimal digits. -/
def escapedByte (first second third : UInt8) : Option UInt8 :=
  if first = percent then
    match hexDigit second, hexDigit third with
    | some high, some low => some (16 * high + low)
    | _, _ => none
  else
    none

/-- Escapes replaced by their bytes; anything else stands for itself. -/
def percentDecode : Bytes → Bytes
  | first :: second :: third :: rest =>
      match escapedByte first second third with
      | some byte => byte :: percentDecode rest
      | none => first :: percentDecode (second :: third :: rest)
  | short => short

/-- A component from a segment of the path.  Periods alone stand for a
component with three fewer of them; one or two are relative references. -/
def decodeSegment (segment : Bytes) : Option Bytes :=
  let value := percentDecode segment
  if value.all (· = period) then
    if value.length ≤ 2 then none else some (value.drop 3)
  else
    some value

/-- The components of a path; empty segments are skipped. -/
def readPath (text : Bytes) : Option (List Bytes) :=
  ((text.splitOn slash).filter (· ≠ [])).mapM decodeSegment

def stripScheme (text : Bytes) : Bytes :=
  match text.takeWhile isSchemeByte, text.dropWhile isSchemeByte with
  | first :: _, separator :: rest =>
      if isAlpha first ∧ separator = colon then rest else text
  | _, _ => text

def stripAuthority (text : Bytes) : Bytes :=
  match text with
  | first :: second :: rest =>
      if first = slash ∧ second = slash then
        rest.dropWhile (· ≠ slash)
      else
        text
  | _ => text

end Uri

open Uri

/-- The name a URI stands for, `none` when it has no components to read or
they do not fit. -/
def Name.ofUri (text : Bytes) : Option Name :=
  match readPath (stripAuthority (stripScheme text)) with
  | none => none
  | some components =>
      if fits : (encodeComponents components).length < 2 ^ 64 then
        some ⟨components, fits⟩
      else
        none

/-- A constructor from strings that reads URIs: text that starts with neither
a letter, so that it has no scheme, nor a slash is a path. -/
structure UriConstructor (ofString : Bytes → Option Name) : Prop where
  relative : ∀ {first : UInt8} {rest : Bytes} {name : Name},
    isAlpha first = false → first ≠ slash →
      ofString (first :: rest) = some name →
        readPath (first :: rest) = some name.components

theorem Name.ofUri_uriConstructor : UriConstructor Name.ofUri where
  relative := by
    intro first rest name notAlpha notSlash read
    have noScheme : stripScheme (first :: rest) = first :: rest := by
      unfold stripScheme
      by_cases inScheme : isSchemeByte first
      · simp only [List.takeWhile_cons, inScheme, if_true]
        cases (first :: rest).dropWhile isSchemeByte with
        | nil => rfl
        | cons separator remaining => simp [notAlpha]
      · simp [inScheme]
    have noAuthority : stripAuthority (first :: rest) = first :: rest := by
      cases rest with
      | nil => rfl
      | cons second rest => simp [stripAuthority, notSlash]
    unfold Name.ofUri at read
    rw [noScheme, noAuthority] at read
    cases components : readPath (first :: rest) with
    | none => simp [components] at read
    | some components =>
        simp only [components] at read
        split_ifs at read with fits
        rw [← Option.some.inj read]

namespace Uri

/-- A byte with no meaning in a path. -/
def Plain (byte : UInt8) : Prop :=
  byte ≠ slash ∧ byte ≠ percent ∧ byte ≠ period ∧ hexDigit byte = none

private theorem count_escape {byte first second third escaped : UInt8}
    (plain : Plain byte)
    (escape : escapedByte first second third = some escaped) :
    first ≠ byte ∧ second ≠ byte ∧ third ≠ byte := by
  obtain ⟨-, notPercent, -, notHex⟩ := plain
  unfold escapedByte at escape
  split_ifs at escape with isPercent
  refine ⟨?_, ?_, ?_⟩
  · rw [isPercent]
    exact notPercent.symm
  · rintro rfl
    simp [notHex] at escape
  · rintro rfl
    cases digit : hexDigit second with
    | none => simp [digit] at escape
    | some high => simp [digit, notHex] at escape

theorem count_le_percentDecode {byte : UInt8} (plain : Plain byte)
    (text : Bytes) : text.count byte ≤ (percentDecode text).count byte := by
  fun_induction percentDecode text with
  | case1 first second third rest escaped escape induction =>
      obtain ⟨notFirst, notSecond, notThird⟩ := count_escape plain escape
      simp only [List.count_cons, beq_iff_eq, notFirst, notSecond, notThird,
        if_false]
      omega
  | case2 first second third rest _ induction =>
      rw [List.count_cons, List.count_cons (a := byte) (b := first)]
      omega
  | case3 => exact le_rfl

private theorem count_le_decodeSegment {byte : UInt8} (plain : Plain byte)
    {segment component : Bytes}
    (decoded : decodeSegment segment = some component) :
    segment.count byte ≤ component.count byte := by
  simp only [decodeSegment] at decoded
  split_ifs at decoded with periods short
  · have absent : (percentDecode segment).count byte = 0 := by
      rw [List.count_eq_zero]
      intro member
      have isPeriod := List.all_eq_true.mp periods byte member
      exact plain.2.2.1 (of_decide_eq_true isPeriod)
    have kept := count_le_percentDecode plain segment
    omega
  · rw [← Option.some.inj decoded]
    exact count_le_percentDecode plain segment

private theorem count_flatten_splitOn {byte : UInt8} (plain : Plain byte)
    (text : Bytes) :
    (text.splitOn slash).flatten.count byte = text.count byte := by
  induction text with
  | nil => rfl
  | cons first rest induction =>
      rw [List.splitOn_cons_eq_if_modifyHead, List.count_cons, ← induction]
      split_ifs with isSlash isByte isByte
      · simp only [beq_iff_eq] at isSlash isByte
        exact (plain.1 (isByte.symm.trans isSlash)).elim
      · simp
      · simp only [beq_iff_eq] at isByte
        subst isByte
        cases segments : rest.splitOn slash with
        | nil => exact (List.splitOn_ne_nil slash rest segments).elim
        | cons segment segments => simp [List.modifyHead]
      · cases segments : rest.splitOn slash with
        | nil => exact (List.splitOn_ne_nil slash rest segments).elim
        | cons segment segments =>
            simp only [beq_iff_eq] at isByte
            simp [List.modifyHead, isByte]

private theorem count_flatten_filter (byte : UInt8) (segments : List Bytes) :
    (segments.filter (· ≠ [])).flatten.count byte =
      segments.flatten.count byte := by
  induction segments with
  | nil => rfl
  | cons segment segments induction =>
      cases segment with
      | nil => simpa using induction
      | cons first rest =>
          simp only [ne_eq, reduceCtorEq, not_false_eq_true, decide_true,
            List.filter_cons_of_pos, List.flatten_cons, List.count_append]
          exact congrArg _ induction

private theorem count_le_mapM {byte : UInt8} (plain : Plain byte)
    {segments components : List Bytes}
    (decoded : segments.mapM decodeSegment = some components) :
    segments.flatten.count byte ≤ components.flatten.count byte := by
  induction segments generalizing components with
  | nil => simp
  | cons segment segments induction =>
      rw [List.mapM_cons] at decoded
      cases head : decodeSegment segment with
      | none => simp [head] at decoded
      | some component =>
          cases tail : segments.mapM decodeSegment with
          | none => simp [head, tail] at decoded
          | some others =>
              simp only [head, tail, Option.bind_eq_bind,
                Option.bind_some, Option.pure_def,
                Option.some.injEq] at decoded
              subst decoded
              have headCount := count_le_decodeSegment plain head
              have tailCount := induction tail
              simp only [List.flatten_cons, List.count_append]
              omega

theorem count_le_readPath (byte : UInt8) (plain : Plain byte)
    {text : Bytes} {components : List Bytes}
    (read : readPath text = some components) :
    text.count byte ≤ components.flatten.count byte := by
  have kept := count_le_mapM plain read
  rwa [count_flatten_filter, count_flatten_splitOn plain] at kept

end Uri

namespace Name

/-- The operations on names with strings read as URIs. -/
def uriOps : NameOps Name :=
  ops ofUri

theorem count_le_encodeComponents (byte : UInt8) (components : List Bytes) :
    components.flatten.count byte ≤
      (encodeComponents components).count byte := by
  induction components with
  | nil => simp
  | cons component components induction =>
      have header : component.count byte ≤
          (encodeTlv 0x08 component).count byte := by
        simp only [encodeTlv, List.count_cons, List.count_append]
        omega
      have unfolded : encodeComponents (component :: components) =
          encodeTlv 0x08 component ++ encodeComponents components := rfl
      rw [unfolded, List.count_append, List.flatten_cons, List.count_append]
      omega

theorem ofString_wireEncode_ne {ofString : Bytes → Option Name}
    (uri : UriConstructor ofString) (name : Name) :
    ofString name.wireEncode ≠ some name := by
  intro decoded
  have read : readPath name.wireEncode = some name.components :=
    uri.relative (by decide) (by decide) decoded
  have kept := count_le_readPath 0x07 (by
    unfold Plain
    decide) read
  have inside := count_le_encodeComponents 0x07 name.components
  have header : (encodeComponents name.components).count 0x07 <
      name.wireEncode.count 0x07 := by
    simp only [wireEncode, encodeTlv, List.count_cons, List.count_append,
      beq_self_eq_true, if_true]
    omega
  omega

end Name

/-- A name that is not empty, as the names of devices are. -/
abbrev DeviceName :=
  { name : Name // name.components ≠ [] }

namespace DeviceName

/-- Components that do not fit leave the name as it is. -/
def extend (name : DeviceName) (components : List Bytes) : DeviceName :=
  let longer := Name.ofComponents (name.val.components ++ components)
  if named : longer.components ≠ [] then ⟨longer, named⟩ else name

def ops : NameOps DeviceName where
  wire name := name.val.wireEncode
  value name := encodeComponents name.val.components
  ofString text := (Name.ofUri text).bind fun name =>
    if named : name.components ≠ [] then some ⟨name, named⟩ else none
  append name component := name.extend [component]
  appendName name other := name.extend other.val.components
  appendNumber name number := name.extend [Name.encodeNumber number]

theorem ops_distinctBlobs : ops.DistinctBlobs where
  wireInjective left right equality :=
    Subtype.ext (Name.wireEncode_selfDelimiting.injective equality)
  valueInjective left right equality :=
    Subtype.ext (Name.eq_of_components
      (Name.encodeComponents_injOn left.val.fits right.val.fits equality))
  wireHead name := ⟨_, rfl⟩
  valueHead name := by
    obtain ⟨name, nonempty⟩ := name
    cases parts : name.components with
    | nil => exact absurd parts nonempty
    | cons head tail =>
        refine ⟨encodeVarNumber head.length ++ head ++
          encodeComponents tail, ?_⟩
        simp [ops, parts, encodeComponents, encodeTlv]

/-- The device `/alex`. -/
def alex : DeviceName :=
  ⟨Name.alex, by decide⟩

/-- The device `/bob`. -/
def bob : DeviceName :=
  ⟨Name.bob, by decide⟩

end DeviceName

end ChronoShare
