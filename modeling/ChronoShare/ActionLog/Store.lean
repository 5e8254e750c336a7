import ChronoShare.SyncLog.Store
import ChronoShare.SyncCore.Core
import Mathlib.Data.Prod.Lex

/-!
# The log of actions and the state of the files

The table of actions, the table of files, and the operations that add an
action.  Insertion into the first table fires the trigger that applies the
action to the second.  Columns that no operation reads back are left out, and
so are the directories, which are computed from the file names.
-/

namespace ChronoShare

inductive ActionType where
  | update
  | delete
  deriving DecidableEq, Repr

/-- The message that describes an action.  An optional field that is absent
reads as zero or as the empty string. -/
structure ActionItem where
  action : ActionType
  filename : Bytes
  version : UInt64
  timestamp : UInt32
  segNum : Option UInt64
  fileHash : Option Bytes
  mtime : Option UInt32
  mode : Option UInt32
  parentDeviceName : Option Bytes
  parentSeqNo : Option UInt64
  deriving DecidableEq, Repr

/-- A time whose year has a text. -/
abbrev TimeText :=
  { seconds : Int64 // -210866760000 ≤ seconds ∧ seconds ≤ 253402300799 }

structure ActionRow where
  deviceName : Bytes
  seqNo : Int64
  action : ActionType
  filename : Bytes
  version : Int64
  actionTimestamp : Option TimeText
  fileHash : Option Bytes
  fileMtime : Option TimeText
  fileChmod : Option Int32
  fileSegNum : Option Int32
  parentDeviceName : Option Bytes
  parentSeqNo : Option Int64
  actionName : Bytes
  actionContentObject : Bytes
  deriving DecidableEq, Repr

structure FileRow where
  filename : Bytes
  version : Int64
  deviceName : Bytes
  seqNo : Int64
  fileHash : Bytes
  fileMtime : Option TimeText
  fileChmod : Int32
  fileSegNum : Int32
  isComplete : Bool
  deriving DecidableEq, Repr

/-- `datetime (?, 'unixepoch')`, NULL for a time without a text. -/
def datetime (seconds : Int64) : Option TimeText :=
  if bounded : -210866760000 ≤ seconds ∧ seconds ≤ 253402300799 then
    some ⟨seconds, bounded⟩
  else
    none

/-- `strftime ('%s', ?)` read as an integer; NULL reads as zero. -/
def readTime : Option TimeText → Int64
  | none => 0
  | some time => time.val

/-- A string passed on as a C string ends at its first NUL. -/
def cString (text : Bytes) : Bytes :=
  text.takeWhile (· ≠ 0)

/-- A blob without a buffer binds NULL. -/
def bindBlob (blob : Bytes) : Option Bytes :=
  if blob = [] then none else some blob

namespace FileState

/-- `UPDATE FileState`, then `INSERT INTO FileState` when no row changed.  The
pointer of a hash without bytes is never set; unless it happens to be null, an
empty blob is bound, which is not NULL. -/
def updateFile (files : List FileRow) (filename : Bytes) (version : Int64)
    (hash deviceName : Bytes) (seqNo mtime : Int64) (mode segNum : Int32) :
    List FileRow :=
  if files.any fun row => row.filename = cString filename then
    files.map fun row =>
      if row.filename = cString filename then
        { row with
          deviceName := deviceName
          seqNo := seqNo
          version := version
          fileHash := hash
          fileMtime := datetime mtime
          fileChmod := mode
          fileSegNum := segNum }
      else
        row
  else
    files ++ [⟨cString filename, version, deviceName, seqNo, hash,
      datetime mtime, mode, segNum, false⟩]

def deleteFile (files : List FileRow) (filename : Bytes) : List FileRow :=
  files.filter fun row => row.filename ≠ cString filename

def setFileComplete (files : List FileRow) (filename : Bytes) :
    List FileRow :=
  files.map fun row =>
    if row.filename = cString filename then
      { row with isComplete := true }
    else
      row

end FileState

/-- An open log of actions with the log of states it numbers actions by. -/
structure ActionLog (Name : Type) where
  actions : List ActionRow
  fileState : List FileRow
  syncLog : SyncLog Name

/-- What the log takes from its libraries and from its constructor: names, the
format of messages, the decoding of a packet from a block, and the names of
the application and of the shared folder. -/
structure ActionPlatform (Name : Type) where
  ndn : NameOps Name
  serialize : ActionItem → Bytes
  parse : Bytes → Option ActionItem
  decodeData : Bytes → Option (Data Name)
  appName : Bytes
  sharedFolderName : Bytes

namespace ActionLog

variable {Name : Type}

def opened (syncLog : SyncLog Name) : ActionLog Name :=
  ⟨[], [], syncLog⟩

/-- The condition of the trigger: no action on the file has a greater version,
and none of the same version has a greater device name. -/
def triggered (actions : List ActionRow) (new : ActionRow) : Bool :=
  (!actions.any fun row =>
    row.filename = new.filename ∧ new.version < row.version) &&
  !actions.any fun row =>
    row.filename = new.filename ∧ row.version = new.version ∧
      new.deviceName < row.deviceName

/-- `apply_action_xFun`: the columns arrive as SQL values, with NULL read as
zero or as a hash without bytes. -/
def applyAction (files : List FileRow) (row : ActionRow) : List FileRow :=
  match row.action with
  | .update =>
      FileState.updateFile files (cString row.filename) row.version
        (row.fileHash.getD []) row.deviceName row.seqNo
        (readTime row.fileMtime) (row.fileChmod.getD 0)
        (row.fileSegNum.getD 0)
  | .delete => FileState.deleteFile files (cString row.filename)

/-- `INSERT INTO ActionLog`, abandoned when the device and the number have a
row, and otherwise followed by the trigger. -/
def insertAction (log : ActionLog Name) (new : ActionRow) : ActionLog Name :=
  if log.actions.any fun row =>
      row.deviceName = new.deviceName ∧ row.seqNo = new.seqNo then
    log
  else
    let actions := log.actions ++ [new]
    { log with
      actions := actions
      fileState :=
        if triggered actions new then
          applyAction log.fileState new
        else
          log.fileState }

/-- `ORDER BY version DESC LIMIT 1` leaves open which of the rows of the
greatest version comes first: `choice` selects it. -/
def latestRow (actions : List ActionRow) (filename : Bytes) (choice : Nat) :
    Option ActionRow :=
  let rows := actions.filter fun row => row.filename = filename
  let latest := rows.filter fun row =>
    rows.all fun other => other.version ≤ row.version
  latest[choice % latest.length]?

/-- The version and, unless the action is a deletion, the device name and the
number of the latest action on a file. -/
def getLatestActionForFile (actions : List ActionRow) (filename : Bytes)
    (choice : Nat) : Int64 × Option Bytes × Int64 :=
  match latestRow actions filename choice with
  | none => (-1, none, -1)
  | some row =>
      match row.action with
      | .update => (row.version, some row.deviceName, row.seqNo)
      | .delete => (row.version, none, -1)

/-- The text `action`. -/
def actionComponent : Bytes :=
  [0x61, 0x63, 0x74, 0x69, 0x6F, 0x6E]

variable (platform : ActionPlatform Name)

/-- `/<device_name>/<appname>/action/<shared-folder>/<action-seq>`. -/
def actionName (deviceName : Name) (seqNo : Int64) : Name :=
  let ndn := platform.ndn
  ndn.appendNumber
    (ndn.append
      (ndn.append (ndn.append deviceName platform.appName) actionComponent)
      platform.sharedFolderName)
    seqNo.toUInt64

def contentBlock (content : Bytes) : Bytes :=
  encodeTlv 0x15 content

def updateItem (filename hash : Bytes) (version actionTime wtime : Int64)
    (mode segNum : Int32) (parent : Option (Bytes × Int64)) : ActionItem where
  action := .update
  filename := filename
  version := version.toUInt64
  timestamp := actionTime.toUInt64.toUInt32
  segNum := some segNum.toInt64.toUInt64
  fileHash := some hash
  mtime := some wtime.toUInt64.toUInt32
  mode := some mode.toUInt32
  parentDeviceName := parent.map (·.1)
  parentSeqNo := parent.map (·.2.toUInt64)

def updateRow (deviceName : Name) (seqNo : Int64) (filename hash : Bytes)
    (version actionTime wtime : Int64) (mode segNum : Int32)
    (parent : Option (Bytes × Int64)) : ActionRow where
  deviceName := platform.ndn.value deviceName
  seqNo := seqNo
  action := .update
  filename := filename
  version := version
  actionTimestamp := datetime actionTime
  fileHash := bindBlob hash
  fileMtime := datetime wtime
  fileChmod := some mode
  fileSegNum := some segNum
  parentDeviceName := parent.map (·.1)
  parentSeqNo := parent.map (·.2)
  actionName := platform.ndn.wire (actionName platform deviceName seqNo)
  actionContentObject := contentBlock (platform.serialize
    (updateItem filename hash version actionTime wtime mode segNum parent))

/-- `none` when the log of states has no row for the local device. -/
def addLocalActionUpdate (log : ActionLog Name) (choice : Nat)
    (actionTime : Int64) (filename hash : Bytes) (wtime : Int64)
    (mode segNum : Int32) : Option (ActionItem × ActionLog Name) :=
  match log.syncLog.getNextLocalSeqNo with
  | none => none
  | some (seqNo, syncLog) =>
      let (latest, parentDeviceName, parentSeqNo) :=
        getLatestActionForFile log.actions filename choice
      let version := latest + 1
      let parent :=
        if 0 < parentSeqNo then
          parentDeviceName.map fun name => (name, parentSeqNo)
        else
          none
      let row := updateRow platform log.syncLog.localName seqNo filename hash
        version actionTime wtime mode segNum parent
      let inserted := { log with syncLog := syncLog }.insertAction row
      some (updateItem filename hash version actionTime wtime mode segNum
          parent,
        { inserted with
          fileState :=
            FileState.setFileComplete inserted.fileState filename })

def deleteItem (filename : Bytes) (version actionTime : Int64)
    (parentDeviceName : Bytes) (parentSeqNo : Int64) : ActionItem where
  action := .delete
  filename := filename
  version := version.toUInt64
  timestamp := actionTime.toUInt64.toUInt32
  segNum := none
  fileHash := none
  mtime := none
  mode := none
  parentDeviceName := some parentDeviceName
  parentSeqNo := some parentSeqNo.toUInt64

/-- The deletion as a row.  Unlike an update it is stored under the wire form
of the device name, and its content is taken from the memory at the address of
the string object, `memory`, not from the text of the message. -/
def deleteRow (deviceName : Name) (seqNo : Int64) (memory : Nat → UInt8)
    (filename : Bytes) (version actionTime : Int64)
    (parentDeviceName : Bytes) (parentSeqNo : Int64) : ActionRow where
  deviceName := platform.ndn.wire deviceName
  seqNo := seqNo
  action := .delete
  filename := filename
  version := version
  actionTimestamp := datetime actionTime
  fileHash := none
  fileMtime := none
  fileChmod := none
  fileSegNum := none
  parentDeviceName := some parentDeviceName
  parentSeqNo := some parentSeqNo
  actionName := platform.ndn.wire (actionName platform deviceName seqNo)
  actionContentObject :=
    let message := platform.serialize
      (deleteItem filename version actionTime parentDeviceName parentSeqNo)
    contentBlock ((List.range message.length).map memory)

/-- Without a latest update no action is added; the statement that would remove
the file is prepared on the database of actions, which has no such table, and
has no effect. -/
def addLocalActionDelete (log : ActionLog Name) (choice : Nat)
    (actionTime : Int64) (memory : Nat → UInt8) (filename : Bytes) :
    Option (Option ActionItem × ActionLog Name) :=
  match getLatestActionForFile log.actions filename choice with
  | (_, none, _) => some (none, log)
  | (latest, some parentDeviceName, parentSeqNo) =>
      match log.syncLog.getNextLocalSeqNo with
      | none => none
      | some (seqNo, syncLog) =>
          let version := latest + 1
          let row := deleteRow platform log.syncLog.localName seqNo memory
            filename version actionTime parentDeviceName parentSeqNo
          some (deleteItem filename version actionTime parentDeviceName
              parentSeqNo,
            { log with syncLog := syncLog }.insertAction row)

/-- The columns of an action that arrived from another device.  The name under
which it is stored leaves the application out. -/
def remoteRow (deviceName : Name) (seqNo : Int64) (item : ActionItem)
    (content : Bytes) : ActionRow :=
  let isUpdate := item.action = .update
  let ndn := platform.ndn
  { deviceName := ndn.value deviceName
    seqNo := seqNo
    action := item.action
    filename := item.filename
    version := item.version.toInt64
    actionTimestamp := datetime item.timestamp.toUInt64.toInt64
    fileHash := if isUpdate then some (item.fileHash.getD []) else none
    fileMtime :=
      if isUpdate then datetime (item.mtime.getD 0).toUInt64.toInt64
      else none
    fileChmod := if isUpdate then some (item.mode.getD 0).toInt32 else none
    fileSegNum :=
      if isUpdate then some (item.segNum.getD 0).toUInt32.toInt32 else none
    parentDeviceName := item.parentDeviceName
    parentSeqNo := item.parentDeviceName.map fun _ =>
      (item.parentSeqNo.getD 0).toInt64
    actionName := ndn.wire (ndn.appendNumber
      (ndn.append (ndn.append deviceName actionComponent)
        platform.sharedFolderName) seqNo.toUInt64)
    actionContentObject := contentBlock content }

/-- A missing packet and a content that does not parse are refused. -/
def addRemoteAction (log : ActionLog Name) (deviceName : Name)
    (seqNo : Int64) (actionPco : Option (Data Name)) :
    Option ActionItem × ActionLog Name :=
  match actionPco with
  | none => (none, log)
  | some data =>
      match platform.parse data.content with
      | none => (none, log)
      | some item =>
          (some item, log.insertAction
            (remoteRow platform deviceName seqNo item data.content))

/-- The outer `none` is an exception: the stored block is not a packet. -/
def lookupActionPco (log : ActionLog Name) (deviceName : Name)
    (seqNo : Int64) : Option (Option (Data Name)) :=
  match log.actions.find? fun row =>
      row.deviceName = platform.ndn.value deviceName ∧ row.seqNo = seqNo with
  | none => some none
  | some row =>
      match platform.decodeData row.actionContentObject with
      | none => none
      | some data => some (some data)

def lookupActionPcoByName (log : ActionLog Name) (name : Name) :
    Option (Option (Data Name)) :=
  match log.actions.find? fun row =>
      row.actionName = platform.ndn.value name with
  | none => some none
  | some row =>
      match platform.decodeData row.actionContentObject with
      | none => none
      | some data => some (some data)

/-- `deserialize`, applied to the packet a lookup returned. -/
def deserializePco : Option (Option (Data Name)) → Option (Option ActionItem)
  | none => none
  | some none => some none
  | some (some data) => some (platform.parse data.content)

def lookupAction (log : ActionLog Name) (deviceName : Name) (seqNo : Int64) :
    Option (Option ActionItem) :=
  deserializePco platform (lookupActionPco platform log deviceName seqNo)

def lookupActionByName (log : ActionLog Name) (name : Name) :
    Option (Option ActionItem) :=
  deserializePco platform (lookupActionPcoByName platform log name)

end ActionLog

end ChronoShare
