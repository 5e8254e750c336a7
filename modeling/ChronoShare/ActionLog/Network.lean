import ChronoShare.ActionLog.FileView
import ChronoShare.SyncLog.LocalNumber

/-!
# Devices that exchange actions

Each device keeps a log of actions, adds to it, and receives the actions of
the others in any order and any number of times.  What a device has received
is recorded next to its log; the invariant relates the two row by row.
-/

namespace ChronoShare

/-- An action as it was created, with the modification time its author was
told. -/
structure Created (Name : Type) where
  author : Name
  seqNo : Int64
  item : ActionItem
  wtime : Int64
  deriving DecidableEq

instance createdLawfulBEq {Name : Type} [DecidableEq Name] :
    LawfulBEq (Created Name) :=
  inferInstance

/-- `received` lists, without repetitions, the actions a device has created or
was delivered. -/
structure Network (Name : Type) where
  log : Name → ActionLog Name
  created : List (Created Name)
  received : Name → List (Created Name)

inductive NetworkEvent (Name : Type) where
  | addLocalActionUpdate (device : Name) (choice : Nat) (actionTime : Int64)
      (filename hash : Bytes) (wtime : Int64) (mode segNum : Int32)
  | addLocalActionDelete (device : Name) (choice : Nat) (actionTime : Int64)
      (memory : Nat → UInt8) (filename : Bytes)
  | deliver (device : Name) (action : Created Name) (actionPco : Data Name)
  | syncLogChanged (device : Name) (syncLog : SyncLog Name)

namespace Network

variable {Name : Type} [DecidableEq Name]

/-- Fresh logs of actions over the given logs of states. -/
def start (syncLogs : Name → SyncLog Name) : Network Name :=
  ⟨fun device => ActionLog.opened (syncLogs device), [], fun _ => []⟩

def setLog (network : Network Name) (device : Name) (log : ActionLog Name) :
    Network Name :=
  { network with log := Function.update network.log device log }

def receive (network : Network Name) (device : Name) (action : Created Name) :
    Network Name :=
  if action ∈ network.received device then
    network
  else
    { network with
      received := Function.update network.received device
        (network.received device ++ [action]) }

/-- The device has the log `log` after it created `action`. -/
def create (network : Network Name) (log : ActionLog Name)
    (action : Created Name) : Network Name :=
  ({ network with created := network.created ++ [action] }.setLog
    action.author log).receive action.author action

variable (platform : ActionPlatform Name)

/-- The callers give the path of a file, which has no NUL, and the digest of
its content, which is not empty.  A call that would increment the greatest
number has no defined behaviour.  An action is delivered intact, and to
another device. -/
def step (network : Network Name) : NetworkEvent Name → Option (Network Name)
  | .addLocalActionUpdate device choice actionTime filename hash wtime mode
      segNum =>
      let log := network.log device
      match log.syncLog.getNextLocalSeqNo, log.addLocalActionUpdate platform
          choice actionTime filename hash wtime mode segNum with
      | some (seqNo, _), some (item, after) =>
          if hash ≠ [] ∧ 0 ∉ filename ∧ seqNo ≠ Int64.minValue ∧
              item.version.toInt64 ≠ Int64.minValue then
            some (network.create after ⟨device, seqNo, item, wtime⟩)
          else
            none
      | _, _ => none
  | .addLocalActionDelete device choice actionTime memory filename =>
      let log := network.log device
      match log.syncLog.getNextLocalSeqNo, log.addLocalActionDelete platform
          choice actionTime memory filename with
      | some (seqNo, _), some (some item, after) =>
          if 0 ∉ filename ∧ seqNo ≠ Int64.minValue ∧
              item.version.toInt64 ≠ Int64.minValue then
            some (network.create after ⟨device, seqNo, item, 0⟩)
          else
            none
      | _, some (none, after) => some (network.setLog device after)
      | _, _ => none
  | .deliver device action actionPco =>
      if action ∈ network.created ∧ action.author ≠ device ∧
          platform.parse actionPco.content = some action.item then
        let after := (network.log device).addRemoteAction platform
          action.author action.seqNo (some actionPco)
        some ((network.setLog device after.2).receive device action)
      else
        none
  | .syncLogChanged device syncLog =>
      if (network.log device).syncLog.Advances syncLog then
        some (network.setLog device
          { network.log device with syncLog := syncLog })
      else
        none

abbrev Steps (start : Network Name) :
    List (Network Name × NetworkEvent Name) → Network Name → Prop :=
  Run (fun source label target => step platform source label = some target)
    start

end Network

section Stored

open ActionLog

variable {Name : Type} [DecidableEq Name] (platform : ActionPlatform Name)

/-- The device name under which a device stores an action: a deletion of its
own under the wire form, every other action under the value. -/
def storedName (device : Name) (action : Created Name) : Bytes :=
  if action.author = device ∧ action.item.action = .delete then
    platform.ndn.wire action.author
  else
    platform.ndn.value action.author

def stampAt (device : Name) (action : Created Name) : Int64 ×ₗ Bytes :=
  toLex (action.item.version.toInt64, storedName platform device action)

/-- The modification time a device stores: its author has it as told, the
others as the message carries it. -/
def mtimeAt (device : Name) (action : Created Name) : Int64 :=
  if action.author = device then
    action.wtime
  else
    (action.item.mtime.getD 0).toUInt64.toInt64

/-- What an action leaves in the table of files of a device. -/
def effectAt (device : Name) (action : Created Name) : Option FileRow :=
  let item := action.item
  match item.action with
  | .update => some ⟨item.filename, item.version.toInt64,
      platform.ndn.value action.author, action.seqNo,
      item.fileHash.getD [], datetime (readTime (datetime
        (mtimeAt device action))), (item.mode.getD 0).toInt32,
      (item.segNum.getD 0).toUInt32.toInt32, false⟩
  | .delete => none

/-- The row is what the device stores of the action. -/
structure Stored (device : Name) (sent : Created Name) (row : ActionRow) :
    Prop where
  deviceName : row.deviceName = storedName platform device sent
  seqNo : row.seqNo = sent.seqNo
  action : row.action = sent.item.action
  filename : row.filename = sent.item.filename
  version : row.version = sent.item.version.toInt64
  fileHash : row.fileHash.getD [] = sent.item.fileHash.getD []
  effect : row.effect = effectAt platform device sent

variable {platform}

theorem Stored.stamp {device : Name} {sent : Created Name} {row : ActionRow}
    (stored : Stored platform device sent row) :
    row.stamp = stampAt platform device sent := by
  rw [ActionRow.stamp, stampAt, stored.version, stored.deviceName]

theorem stored_updateRow (device : Name) (seqNo : Int64)
    (filename : Bytes) {hash : Bytes} (nonempty : hash ≠ [])
    (version actionTime wtime : Int64) (mode segNum : Int32)
    (parent : Option (Bytes × Int64)) :
    Stored platform device
      ⟨device, seqNo, updateItem filename hash version actionTime wtime mode
        segNum parent, wtime⟩
      (updateRow platform device seqNo filename hash version actionTime wtime
        mode segNum parent) where
  deviceName := by simp [updateRow, storedName, updateItem]
  seqNo := rfl
  action := rfl
  filename := rfl
  version := by simp [updateRow, updateItem]
  fileHash := by simp [updateRow, updateItem, bindBlob, nonempty]
  effect := by
    simp [ActionRow.effect, effectAt, updateRow, updateItem, mtimeAt, bindBlob,
      nonempty]

theorem stored_deleteRow (device : Name) (seqNo : Int64)
    (memory : Nat → UInt8) (filename : Bytes) (version actionTime : Int64)
    (parentDeviceName : Bytes) (parentSeqNo : Int64) :
    Stored platform device
      ⟨device, seqNo, deleteItem filename version actionTime parentDeviceName
        parentSeqNo, 0⟩
      (deleteRow platform device seqNo memory filename version actionTime
        parentDeviceName parentSeqNo) where
  deviceName := by simp [deleteRow, storedName, deleteItem]
  seqNo := rfl
  action := rfl
  filename := rfl
  version := by simp [deleteRow, deleteItem]
  fileHash := rfl
  effect := rfl

theorem stored_remoteRow {device : Name} {action : Created Name}
    (foreign : action.author ≠ device)
    (bare : action.item.action = .delete → action.item.fileHash = none)
    (content : Bytes) :
    Stored platform device action
      (remoteRow platform action.author action.seqNo action.item content)
      where
  deviceName := by simp [remoteRow, storedName, foreign]
  seqNo := rfl
  action := rfl
  filename := rfl
  version := rfl
  fileHash := by
    cases kind : action.item.action with
    | update => simp [remoteRow, kind]
    | delete => simp [remoteRow, kind, bare kind]
  effect := by
    cases kind : action.item.action with
    | update =>
        simp [ActionRow.effect, effectAt, remoteRow, kind, mtimeAt, foreign]
    | delete => simp [ActionRow.effect, effectAt, remoteRow, kind]

theorem storedName_author (blobs : platform.ndn.DistinctBlobs) {device : Name}
    {left right : Created Name}
    (equality : storedName platform device left =
      storedName platform device right) :
    left.author = right.author := by
  have apart : ∀ name other,
      platform.ndn.wire name ≠ platform.ndn.value other :=
    fun name other => (blobs.wire_lt_value name other).ne
  unfold storedName at equality
  split_ifs at equality
  · exact blobs.wireInjective equality
  · exact absurd equality (apart _ _)
  · exact absurd equality.symm (apart _ _)
  · exact blobs.valueInjective equality

end Stored

end ChronoShare
