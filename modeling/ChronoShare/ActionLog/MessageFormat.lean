import ChronoShare.ActionLog.Store
import ChronoShare.SyncCore.MessageFormat
import ChronoShare.Ndn.Uri

/-!
# Action messages and packets that can be read back

Instances of the two formats the log of actions takes as parameters: an item
as a row of fields, and a packet as a block of its own type.
-/

namespace ChronoShare

def writeActionType : ActionType → Bytes
  | .update => [0]
  | .delete => [1]

def readActionType (field : Bytes) : ActionType :=
  if field = [0] then .update else .delete

def writeShort (number : Option UInt32) : Bytes :=
  writeNumber (number.map UInt32.toUInt64)

def readShort (field : Bytes) : Option UInt32 :=
  (readNumber field).map UInt64.toUInt32

@[simp] theorem readActionType_writeActionType (type : ActionType) :
    readActionType (writeActionType type) = type := by
  cases type <;> rfl

@[simp] theorem readShort_writeShort (number : Option UInt32) :
    readShort (writeShort number) = number := by
  rw [readShort, writeShort, readNumber_writeNumber, Option.map_map]
  cases number with
  | none => rfl
  | some number => simp

def writeItem (item : ActionItem) : Bytes :=
  [writeActionType item.action, item.filename, writeNumber (some item.version),
    writeShort (some item.timestamp), writeNumber item.segNum,
    writeOptional item.fileHash, writeShort item.mtime, writeShort item.mode,
    writeOptional item.parentDeviceName, writeNumber item.parentSeqNo].flatMap
      writeField

def itemOfFields : List Bytes → Option ActionItem
  | [action, filename, version, timestamp, segNum, fileHash, mtime, mode,
      parentDeviceName, parentSeqNo] => do
      let version ← readNumber version
      let timestamp ← readShort timestamp
      some ⟨readActionType action, filename, version, timestamp,
        readNumber segNum, readOptional fileHash, readShort mtime,
        readShort mode, readOptional parentDeviceName,
        readNumber parentSeqNo⟩
  | _ => none

def readItem (content : Bytes) : Option ActionItem :=
  (readFields content).bind itemOfFields

theorem readFields_flatMap_writeField (fields : List Bytes) :
    readFields (fields.flatMap writeField) = some fields := by
  induction fields with
  | nil => rfl
  | cons field fields induction =>
      rw [List.flatMap_cons, readFields_writeField, induction]
      rfl

theorem readItem_writeItem (item : ActionItem) :
    readItem (writeItem item) = some item := by
  rw [readItem, writeItem, readFields_flatMap_writeField]
  simp [itemOfFields]

def writeData (data : Data Name) : Bytes :=
  0x06 :: (data.name.components ++
    [writeNumber (some data.freshnessPeriod.toUInt64), data.content]).flatMap
      writeField

def dataOfFields (fields : List Bytes) : Option (Data Name) :=
  match fields.reverse with
  | content :: freshnessPeriod :: components => do
      let freshnessPeriod ← readNumber freshnessPeriod
      some ⟨Name.ofComponents components.reverse, freshnessPeriod.toNat,
        content⟩
  | _ => none

/-- A block of another type is no packet. -/
def readData : Bytes → Option (Data Name)
  | [] => none
  | type :: fields =>
      if type = 0x06 then
        (readFields fields).bind dataOfFields
      else
        none

/-- The application and the folder over the given names, with items and
packets in these formats. -/
def plainActionPlatform (ndn : NameOps Name) : ActionPlatform Name where
  ndn
  serialize := writeItem
  parse := readItem
  decodeData := readData
  appName := [0x61, 0x70, 0x70]
  sharedFolderName := [0x66]

/-- The same for devices whose names are not empty. -/
def devicePlatform : ActionPlatform DeviceName where
  ndn := DeviceName.ops
  serialize := writeItem
  parse := readItem
  decodeData block := (readData block).bind fun data =>
    if named : data.name.components ≠ [] then
      some ⟨⟨data.name, named⟩, data.freshnessPeriod, data.content⟩
    else
      none
  appName := [0x61, 0x70, 0x70]
  sharedFolderName := [0x66]

end ChronoShare
