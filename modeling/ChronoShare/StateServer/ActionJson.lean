import ChronoShare.ActionLog.Listings
import ChronoShare.ContentServer.Routing
import ChronoShare.Dispatcher.Segments
import Mathlib.Data.Nat.Digits.Defs

/-!
# Actions as JSON

The lookups turn a row into an item and a name of one component, the stored
bytes of the device, and the state server writes both as an object.  Neither
the device nor the parent of an action can be read from the object.
-/

namespace ChronoShare

/-- A value of JSON with the members of objects in their order. -/
inductive JsonValue where
  | string (text : Bytes)
  | number (value : Int)
  | object (members : List (String × JsonValue))

namespace JsonValue

def field (key : String) : JsonValue → Option JsonValue
  | .object members =>
      (members.find? fun member => member.1 = key).map (·.2)
  | _ => none

def fieldOf (outer inner : String) (value : JsonValue) : Option JsonValue :=
  (value.field outer).bind (field inner)

end JsonValue

def Name.toUri (name : Name) : Bytes :=
  if name.components = [] then [Uri.slash]
  else name.components.flatMap fun component =>
    Uri.slash :: Uri.toUri component

/-- `setbase (8) << setfill ('0') << setw (4)`. -/
def octalText (number : Nat) : Bytes :=
  ((Nat.digits 8 number).reverse.map fun digit =>
    UInt8.ofNat (0x30 + digit)).leftpad 4 0x30

/-- The number that octal digits stand for. -/
def readOctal (text : Bytes) : Nat :=
  text.foldl (fun number digit => 8 * number + (digit.toNat - 0x30)) 0

/-- The row as the lookups hand it to the visitor. -/
def ActionRow.visited (row : ActionRow) : Name × Int64 × ActionItem :=
  let isUpdate := row.action = .update
  let hasParent := 0 < (row.parentDeviceName.getD []).length
  (.ofComponents [row.deviceName], row.seqNo,
    { action := row.action
      filename := row.filename
      version := row.version.toUInt64
      timestamp := (readTime row.actionTimestamp).toUInt64.toUInt32
      segNum :=
        if isUpdate then some (row.fileSegNum.getD 0).toInt64.toUInt64
        else none
      fileHash := if isUpdate then some (row.fileHash.getD []) else none
      mtime :=
        if isUpdate then some (readTime row.fileMtime).toUInt64.toUInt32
        else none
      mode := if isUpdate then some (row.fileChmod.getD 0).toUInt32 else none
      parentDeviceName := if hasParent then row.parentDeviceName else none
      parentSeqNo :=
        if hasParent then some (row.parentSeqNo.getD 0).toUInt64 else none })

namespace StateServer

/-- The text `UPDATE`. -/
def updateText : Bytes :=
  [0x55, 0x50, 0x44, 0x41, 0x54, 0x45]

/-- The text `DELETE`. -/
def deleteText : Bytes :=
  [0x44, 0x45, 0x4C, 0x45, 0x54, 0x45]

variable (platform : DispatcherPlatform Name) (isoText : UInt32 → Bytes)

/-- `none` is an exception, for a parent whose stored name is no URI. -/
def formatActionJson (name : Name) (seqNo : Int64) (action : ActionItem) :
    Option JsonValue :=
  let id := [("userName", .string name.toUri),
    ("seqNo", .number seqNo.toInt)]
  let update :=
    match action.action with
    | .update => [("update", .object
        [("hash", .string (platform.hashText (action.fileHash.getD []))),
          ("timestamp", .string (isoText (action.mtime.getD 0))),
          ("chmod", .string (octalText (action.mode.getD 0).toNat)),
          ("segNum", .number (action.segNum.getD 0).toNat)])]
    | .delete => []
  let json := [("id", .object id),
    ("timestamp", .string (isoText action.timestamp)),
    ("filename", .string action.filename),
    ("version", .number action.version.toNat),
    ("action", .string
      (if action.action = .update then updateText else deleteText))] ++ update
  match action.parentDeviceName with
  | none => some (.object json)
  | some parent =>
      -- the members of the parent are added to `id`, which was copied before
      (platform.ndn.ofString parent).map fun _ =>
        .object (json ++ [("parentId", .object [])])

def emitted (row : ActionRow) : Option JsonValue :=
  formatActionJson platform isoText row.visited.1 row.visited.2.1
    row.visited.2.2

/-- The members for the action itself are those that are documented. -/
structure DescribesAction (row : ActionRow) (json : JsonValue) : Prop where
  seqNo : json.fieldOf "id" "seqNo" = some (.number row.seqNo.toInt)
  timestamp : json.field "timestamp" =
    some (.string (isoText (readTime row.actionTimestamp).toUInt64.toUInt32))
  filename : json.field "filename" = some (.string row.filename)
  version : json.field "version" =
    some (.number row.version.toUInt64.toNat)
  action : json.field "action" = some (.string
    (if row.action = .update then updateText else deleteText))
  hash : row.action = .update → json.fieldOf "update" "hash" =
    some (.string (platform.hashText (row.fileHash.getD [])))
  fileTimestamp : row.action = .update → json.fieldOf "update" "timestamp" =
    some (.string (isoText (readTime row.fileMtime).toUInt64.toUInt32))
  chmod : row.action = .update → ∃ text,
    json.fieldOf "update" "chmod" = some (.string text) ∧
      readOctal text = (row.fileChmod.getD 0).toUInt32.toNat
  segNum : row.action = .update → json.fieldOf "update" "segNum" =
    some (.number (row.fileSegNum.getD 0).toInt64.toUInt64.toNat)
  noUpdate : row.action = .delete → (json.field "update").isNone

/-- The object decodes to the action, its device and its parent. -/
structure Describes (device : Name) (parent : Option (Name × Int64))
    (row : ActionRow) (json : JsonValue) : Prop
    extends DescribesAction platform isoText row json where
  userName : json.fieldOf "id" "userName" = some (.string device.toUri)
  parentUserName : json.fieldOf "parentId" "userName" =
    parent.map fun source => .string source.1.toUri
  parentSeqNo : json.fieldOf "parentId" "seqNo" =
    parent.map fun source => .number source.2.toUInt64.toNat
  noParent : parent = none → (json.field "parentId").isNone

end StateServer

theorem readOctal_digits {digits : List Nat} (small : ∀ digit ∈ digits,
    digit < 8) :
    readOctal (digits.reverse.map fun digit => UInt8.ofNat (0x30 + digit)) =
      Nat.ofDigits 8 digits := by
  rw [readOctal, List.foldl_map, List.foldl_reverse]
  induction digits with
  | nil => rfl
  | cons digit digits induction =>
      have isSmall := small digit List.mem_cons_self
      have rest := induction fun other member =>
        small other (List.mem_cons_of_mem digit member)
      rw [List.foldr_cons, rest, Nat.ofDigits_cons, UInt8.toNat_ofNat',
        Nat.mod_eq_of_lt (by omega)]
      omega

theorem readOctal_octalText (number : Nat) :
    readOctal (octalText number) = number := by
  have zeros : ∀ count : Nat, (List.replicate count (0x30 : UInt8)).foldl
      (fun number digit => 8 * number + (digit.toNat - 0x30)) 0 = 0 := by
    intro count
    induction count with
    | zero => rfl
    | succ count induction =>
        rw [List.replicate_succ, List.foldl_cons]
        exact induction
  have digits := @readOctal_digits (Nat.digits 8 number)
    fun digit member => Nat.digits_lt_base (by decide) member
  rw [Nat.ofDigits_digits] at digits
  rw [octalText, List.leftpad, readOctal, List.foldl_append, zeros]
  exact digits

theorem length_toUri_le (component : Bytes) :
    (Uri.toUri component).length ≤
      (component.flatMap Uri.escapeByte).length + 3 := by
  rw [Uri.toUri]
  split_ifs
  · have longer := Uri.length_le_flatMap_escapeByte component
    simp only [List.length_append, List.length_cons, List.length_nil]
    omega
  · exact Nat.le_add_right _ _

theorem toUri_ne_of_inside {first : UInt8} {middle component back : Bytes}
    (escaped : Uri.isUnescaped first = false) (nonempty : middle ≠ []) :
    Uri.toUri (first :: (middle ++ (component ++ back))) ≠
      Uri.toUri component := by
  have notPeriods : ¬ (first :: (middle ++ (component ++ back))).all
      (· = Uri.period) = true := by
    intro periods
    have isPeriod := List.all_eq_true.mp periods first List.mem_cons_self
    rw [of_decide_eq_true isPeriod] at escaped
    exact absurd escaped (by decide)
  have three : (Uri.escapeByte first).length = 3 := by
    rw [Uri.escapeByte, if_neg (Bool.eq_false_iff.mp escaped)]
    rfl
  have some : 1 ≤ (middle.flatMap Uri.escapeByte).length :=
    (List.length_pos_of_ne_nil nonempty).trans_le
      (Uri.length_le_flatMap_escapeByte middle)
  have bounded := length_toUri_le component
  intro same
  rw [← same, Uri.toUri, if_neg notPeriods, List.flatMap_cons,
    List.flatMap_append, List.flatMap_append, List.length_append,
    List.length_append, List.length_append, three] at bounded
  omega

namespace Name

theorem count_toUri {name : Name} (nonempty : name.components ≠ []) :
    name.toUri.count Uri.slash = name.components.length := by
  rw [toUri, if_neg nonempty]
  generalize name.components = components
  induction components with
  | nil => rfl
  | cons component components induction =>
      have none : (Uri.toUri component).count Uri.slash = 0 :=
        List.count_eq_zero.mpr (Uri.slash_notMem_toUri component)
      rw [List.flatMap_cons, List.cons_append, List.count_cons_self,
        List.count_append, none, induction, List.length_cons]
      omega

theorem encodeVarNumber_ne_nil (number : Nat) :
    encodeVarNumber number ≠ [] := by
  rw [encodeVarNumber]
  split_ifs <;> simp

def IsStored (device : Name) (blob : Bytes) : Prop :=
  blob = device.valueBlob ∨ blob = device.wireEncode

theorem toUri_ne_of_isStored {device : Name} {blob component : Bytes}
    (stored : device.IsStored blob)
    (isDevice : device.components = [component]) :
    Uri.toUri blob ≠ Uri.toUri component := by
  rcases stored with isValue | isWire
  · have parts : blob = 0x08 :: (encodeVarNumber component.length ++
        (component ++ List.replicate (device.wireEncode.length -
          (encodeComponents device.components).length) 0)) := by
      rw [isValue, valueBlob, isDevice]
      simp [encodeComponents, encodeTlv]
    rw [parts]
    exact toUri_ne_of_inside (by decide) (encodeVarNumber_ne_nil _)
  · have parts : blob = 0x07 ::
        ((encodeVarNumber (encodeComponents [component]).length ++
          0x08 :: encodeVarNumber component.length) ++ (component ++ [])) := by
      rw [isWire, wireEncode, isDevice]
      simp [encodeComponents, encodeTlv]
    rw [parts]
    exact toUri_ne_of_inside (by decide) (by simp)

theorem components_eq_nil_of_toUri {device : Name}
    (isRoot : device.toUri = [Uri.slash]) : device.components = [] := by
  by_contra nonempty
  obtain ⟨component, rest, isDevice⟩ := List.exists_cons_of_ne_nil nonempty
  rw [toUri, if_neg nonempty, isDevice, List.flatMap_cons] at isRoot
  have nothing := (List.cons.inj isRoot).2
  exact Uri.toUri_ne_nil component (List.append_eq_nil_iff.mp nothing).1

theorem toUri_stored_ne {device : Name} {blob : Bytes}
    (stored : device.IsStored blob) :
    (ofComponents [blob]).toUri ≠ device.toUri := by
  intro same
  by_cases fits : (encodeComponents [blob]).length < 2 ^ 64
  · have single : (ofComponents [blob]).components = [blob] :=
      components_ofComponents fits
    have written : (ofComponents [blob]).toUri =
        Uri.slash :: Uri.toUri blob := by
      rw [toUri, single]
      simp
    by_cases empty : device.components = []
    · rw [written, toUri, if_pos empty] at same
      exact Uri.toUri_ne_nil blob (List.cons.inj same).2
    · have slashes := count_toUri empty
      rw [← same, count_toUri (by rw [single]; simp), single] at slashes
      obtain ⟨component, isDevice⟩ :=
        List.length_eq_one_iff.mp slashes.symm
      rw [written, toUri, if_neg empty, isDevice] at same
      apply toUri_ne_of_isStored stored isDevice
      simpa using same
  · have written : (ofComponents [blob]).toUri = [Uri.slash] := by
      rw [ofComponents, dif_neg fits]
      rfl
    have empty : device.components = [] :=
      components_eq_nil_of_toUri (same.symm.trans written)
    apply fits
    rcases stored with rfl | rfl
    · rw [valueBlob, wireEncode, empty]
      decide
    · rw [wireEncode, empty]
      decide

end Name

namespace StateServer

variable {platform : DispatcherPlatform Name} {isoText : UInt32 → Bytes}

theorem emitted_cases {row : ActionRow} {json : JsonValue}
    (made : emitted platform isoText row = some json) :
    ∃ update parentId, json = .object
        ([("id", .object
            [("userName", .string (Name.ofComponents [row.deviceName]).toUri),
              ("seqNo", .number row.seqNo.toInt)]),
          ("timestamp", .string
            (isoText (readTime row.actionTimestamp).toUInt64.toUInt32)),
          ("filename", .string row.filename),
          ("version", .number row.version.toUInt64.toNat),
          ("action", .string
            (if row.action = .update then updateText else deleteText))] ++
          (update ++ parentId)) ∧
      update = (if row.action = .update then
        [("update", .object
          [("hash", .string (platform.hashText (row.fileHash.getD []))),
            ("timestamp", .string
              (isoText (readTime row.fileMtime).toUInt64.toUInt32)),
            ("chmod", .string
              (octalText (row.fileChmod.getD 0).toUInt32.toNat)),
            ("segNum", .number
              (row.fileSegNum.getD 0).toInt64.toUInt64.toNat)])]
        else []) ∧
      (parentId = [] ∨ parentId = [("parentId", .object [])]) := by
  refine ⟨_, if (row.visited.2.2.parentDeviceName).isSome then
    [("parentId", .object [])] else [], ?_, rfl, ?_⟩
  · rw [emitted, formatActionJson] at made
    cases isParent : row.visited.2.2.parentDeviceName with
    | none =>
        simp only [isParent] at made
        rw [← Option.some.inj made]
        cases kind : row.action <;> simp [ActionRow.visited, kind]
    | some parent =>
        simp only [isParent] at made
        obtain ⟨device, -, rfl⟩ := Option.map_eq_some_iff.mp made
        cases kind : row.action <;> simp [ActionRow.visited, kind]
  · split_ifs
    · exact Or.inr rfl
    · exact Or.inl rfl

theorem emitted_describesAction {row : ActionRow} {json : JsonValue}
    (made : emitted platform isoText row = some json) :
    DescribesAction platform isoText row json := by
  obtain ⟨update, parentId, rfl, rfl, isParent⟩ := emitted_cases made
  cases kind : row.action with
  | update =>
      constructor <;>
        simp [JsonValue.fieldOf, JsonValue.field, readOctal_octalText, kind]
  | delete =>
      rcases isParent with rfl | rfl
      · constructor <;> simp [JsonValue.fieldOf, JsonValue.field, kind]
      · constructor <;> simp [JsonValue.fieldOf, JsonValue.field, kind]

/-- No row decodes to its device. -/
theorem row_never_described {device : Name} {row : ActionRow}
    (stored : device.IsStored row.deviceName)
    (parent : Option (Name × Int64)) :
    ¬ ∃ json, emitted platform isoText row = some json ∧
      Describes platform isoText device parent row json := by
  rintro ⟨json, made, describes⟩
  obtain ⟨update, parentId, rfl, -, -⟩ := emitted_cases made
  have named := describes.userName
  have sameUri : (Name.ofComponents [row.deviceName]).toUri =
      device.toUri := by
    simpa [JsonValue.fieldOf, JsonValue.field] using named
  exact Name.toUri_stored_ne stored sameUri

theorem exists_isStored_of_made {actionPlatform : ActionPlatform Name}
    {ofString : Bytes → Option Name}
    (ndn : actionPlatform.ndn = Name.ops ofString) {row : ActionRow}
    (made : ActionLog.Made actionPlatform row) :
    ∃ device : Name, device.IsStored row.deviceName := by
  cases made with
  | update deviceName =>
      refine ⟨deviceName, Or.inl ?_⟩
      simp [ActionLog.updateRow, ndn, Name.ops]
  | delete deviceName =>
      refine ⟨deviceName, Or.inr ?_⟩
      simp [ActionLog.deleteRow, ndn, Name.ops]
  | remote deviceName =>
      refine ⟨deviceName, Or.inl ?_⟩
      simp [ActionLog.remoteRow, ndn, Name.ops]

theorem row_never_described_update :
    ¬ ∃ json, emitted Dispatcher.uriDispatcher (fun _ => [])
        (updateAt [0x66] 1 5) = some json ∧
      Describes Dispatcher.uriDispatcher (fun _ => []) Name.alex none
        (updateAt [0x66] 1 5) json :=
  row_never_described (Or.inl rfl) none

/-- A second update of `/alex` after its first one: the device is `/%08%04alex`
with two zero bytes, and the parent has no members. -/
theorem update_names_neither :
    let row : ActionRow := { updateAt [0x66] 2 5 with
      parentDeviceName := some Name.alex.valueBlob, parentSeqNo := some 1 }
    ∃ json, emitted Dispatcher.uriDispatcher (fun _ => []) row = some json ∧
      json.fieldOf "id" "userName" =
        some (.string (Name.ofComponents [Name.alex.valueBlob]).toUri) ∧
      (Name.ofComponents [Name.alex.valueBlob]).toUri ≠ Name.alex.toUri ∧
      json.fieldOf "parentId" "userName" = none ∧
      ¬ Describes Dispatcher.uriDispatcher (fun _ => []) Name.alex
        (some (Name.alex, 1)) row json := by
  intro row
  refine ⟨_, rfl, rfl, by decide, rfl, ?_⟩
  intro describes
  exact Option.some_ne_none _ describes.parentUserName.symm

end StateServer

end ChronoShare
