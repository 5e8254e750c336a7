import ChronoShare.Ndn.NameOps
import ChronoShare.Support.Table
import Mathlib.Data.List.Sort

/-!
# The log of synchronization states

The tables of the synchronization database and the operations on them.  Rows
keep the columns some operation reads; the two triggers are part of the
insertions that fire them, and foreign keys are enforced by the deletion that
cascades.
-/

namespace ChronoShare

abbrev Hash := Bytes

/-- The hash of the state without devices. -/
def Hash.origin : Hash := [0]

/-- The conversion to text in `operator <<` is commented out: no digest prints
anything. -/
def Hash.printed (_hash : Hash) : Bytes :=
  []

structure SyncNode where
  deviceId : Nat
  deviceName : Bytes
  seqNo : Int64
  lastKnownLocator : Option Bytes
  deriving DecidableEq, Repr

structure SyncLogEntry where
  stateId : Nat
  stateHash : Hash
  deriving DecidableEq, Repr

structure SyncStateNode where
  stateId : Nat
  deviceId : Nat
  seqNo : Int64
  deriving DecidableEq, Repr

/-- The three tables, with the greatest keys handed out so far. -/
structure SyncDb where
  syncNodes : List SyncNode
  syncLog : List SyncLogEntry
  syncStateNodes : List SyncStateNode
  lastDeviceId : Nat
  lastStateId : Nat
  deriving DecidableEq, Repr

def SyncDb.empty : SyncDb := ⟨[], [], [], 0, 0⟩

inductive SyncStateType where
  | update
  | delete
  deriving DecidableEq, Repr

/-- One entry of the message that describes a difference of states. -/
structure SyncState where
  name : Bytes
  type : SyncStateType
  seq : Option UInt64
  locator : Option Bytes
  oldSeq : Option UInt64
  deriving DecidableEq, Repr

abbrev SyncStateMsg := List SyncState

namespace SyncDb

/-- `INSERT INTO SyncNodes`.  The trigger turns the insertion of a known
device into an update of its row and abandons the insertion. -/
def insertSyncNode (db : SyncDb) (deviceName : Bytes) (seqNo : Int64) : SyncDb :=
  if db.syncNodes.any fun row => row.deviceName = deviceName then
    { db with
      syncNodes := db.syncNodes.map fun row =>
        if row.deviceName = deviceName then
          { row with seqNo := max row.seqNo seqNo }
        else
          row }
  else
    { db with
      syncNodes := db.syncNodes ++
        [⟨db.lastDeviceId + 1, deviceName, seqNo, none⟩]
      lastDeviceId := db.lastDeviceId + 1 }

/-- `UPDATE SyncNodes SET seq_no=MAX(seq_no,?) WHERE device_id=?`. -/
def updateSyncNode (db : SyncDb) (deviceId : Nat) (seqNo : Int64) : SyncDb :=
  { db with
    syncNodes := db.syncNodes.map fun row =>
      if row.deviceId = deviceId then
        { row with seqNo := max row.seqNo seqNo }
      else
        row }

/-- `UPDATE SyncNodes SET last_known_locator=? WHERE device_name=?`. -/
def updateLocator (db : SyncDb) (deviceName locator : Bytes) : SyncDb :=
  { db with
    syncNodes := db.syncNodes.map fun row =>
      if row.deviceName = deviceName then
        { row with lastKnownLocator := some locator }
      else
        row }

/-- What one row adds to the digest: the name, then the eight bytes of the
sequence number in memory order. -/
def hashStep (deviceName : Bytes) (seqNo : Int64) : Bytes :=
  deviceName ++ littleEndian 8 seqNo.toUInt64.toNat

/-- The aggregate `hash (device_name, seq_no)` over the rows in the order of
their device names; without rows it is a single zero byte. -/
def digest (sha256 : Bytes → Bytes) (rows : List SyncNode) : Hash :=
  match rows.insertionSort fun left right =>
      left.deviceName ≤ right.deviceName with
  | [] => [0]
  | sorted => sha256 (sorted.flatMap fun row =>
      hashStep row.deviceName row.seqNo)

/-- `INSERT INTO SyncLog`.  The trigger first deletes the entry with the same
hash, and the deletion takes the rows that refer to it along. -/
def insertSyncLog (db : SyncDb) (stateHash : Hash) : SyncDb :=
  let replaced := db.syncLog.filter fun entry => entry.stateHash = stateHash
  { db with
    syncLog := (db.syncLog.filter fun entry => entry.stateHash ≠ stateHash) ++
      [⟨db.lastStateId + 1, stateHash⟩]
    syncStateNodes := db.syncStateNodes.filter fun row =>
      ¬ replaced.any fun entry => entry.stateId = row.stateId
    lastStateId := db.lastStateId + 1 }

/-- `INSERT INTO SyncStateNodes SELECT ?, device_id, seq_no FROM SyncNodes`. -/
def insertSyncStateNodes (db : SyncDb) (stateId : Nat) : SyncDb :=
  { db with
    syncStateNodes := db.syncStateNodes ++ db.syncNodes.map fun row =>
      ⟨stateId, row.deviceId, row.seqNo⟩ }

def rememberStateInStateLog (sha256 : Bytes → Bytes) (db : SyncDb) :
    Hash × SyncDb :=
  let stateHash := digest sha256 db.syncNodes
  let logged := db.insertSyncLog stateHash
  (stateHash, logged.insertSyncStateNodes logged.lastStateId)

/-- `SELECT state_id FROM SyncLog WHERE state_hash=?`. -/
def stateIdOf (db : SyncDb) (stateHash : Hash) : Option Nat :=
  (db.syncLog.find? fun entry => entry.stateHash = stateHash).map (·.stateId)

def lookupSyncLog (db : SyncDb) (stateHash : Hash) : Nat :=
  (db.stateIdOf stateHash).getD 0

/-- `SELECT * FROM SyncStateNodes WHERE state_id=(SELECT state_id FROM SyncLog
WHERE state_hash=?)`. -/
def stateRows (db : SyncDb) (stateHash : Hash) : List SyncStateNode :=
  match db.stateIdOf stateHash with
  | none => []
  | some stateId => db.syncStateNodes.filter fun row => row.stateId = stateId

/-- One result row of the difference query as an entry of the message.  An
absent old number is reported as zero. -/
def differenceEntry (includeOldSeq : Bool) (node : SyncNode)
    (oldSeq newSeq : Option Int64) : SyncState where
  name := node.deviceName
  type := if newSeq.isSome then .update else .delete
  seq := newSeq.map Int64.toUInt64
  locator := node.lastKnownLocator
  oldSeq := if includeOldSeq then some ((oldSeq.getD 0).toUInt64) else none

def findStateDifferences (db : SyncDb) (oldHash newHash : Hash)
    (includeOldSeq : Bool := false) : SyncStateMsg :=
  let oldRows := db.stateRows oldHash
  let newRows := db.stateRows newHash
  let leaving := Table.innerJoin (fun pair node => pair.1.deviceId = node.deviceId)
    (Table.leftJoin (fun old new => old.deviceId = new.deviceId) oldRows newRows)
    db.syncNodes
  let entering := Table.innerJoin (fun pair node => pair.1.deviceId = node.deviceId)
    (Table.leftJoin (fun new old => old.deviceId = new.deviceId) newRows oldRows)
    db.syncNodes
  (leaving.filter fun ((old, new), _) =>
      match new with
      | none => true
      | some new => old.seqNo ≠ new.seqNo).map
    (fun ((old, new), node) =>
      differenceEntry includeOldSeq node (some old.seqNo) (new.map (·.seqNo))) ++
  (entering.filter fun ((_, old), _) => old.isNone).map
    (fun ((new, old), node) =>
      differenceEntry includeOldSeq node (old.map (·.seqNo)) (some new.seqNo))

end SyncDb

/-- An open log: the database with the name and the row key of the local
device. -/
structure SyncLog (Name : Type) where
  db : SyncDb
  localName : Name
  localDeviceId : Nat

namespace SyncLog

variable {Name : Type} (ndn : NameOps Name)

def updateDeviceSeqNo (log : SyncLog Name) (name : Name) (seqNo : Int64) :
    SyncLog Name :=
  { log with db := log.db.insertSyncNode (ndn.wire name) seqNo }

/-- The constructor over an existing database; it throws when the row it has
just written cannot be found. -/
def construct (db : SyncDb) (localName : Name) : Option (SyncLog Name) :=
  let initial := db.insertSyncNode (ndn.wire localName) 0
  match initial.syncNodes.find? fun row => row.deviceName = ndn.wire localName with
  | none => none
  | some row => some ⟨initial, localName, row.deviceId⟩

def updateLocalSeqNo (log : SyncLog Name) (seqNo : Int64) : SyncLog Name :=
  { log with db := log.db.updateSyncNode log.localDeviceId seqNo }

/-- The next number of the local device, `none` when its row is missing. -/
def getNextLocalSeqNo (log : SyncLog Name) : Option (Int64 × SyncLog Name) :=
  match log.db.syncNodes.find? fun row => row.deviceId = log.localDeviceId with
  | none => none
  | some row =>
      let seqNo := row.seqNo + 1
      some (seqNo, log.updateLocalSeqNo seqNo)

def updateLocator (log : SyncLog Name) (deviceName locator : Name) : SyncLog Name :=
  { log with
    db := log.db.updateLocator (ndn.value deviceName) (ndn.value locator) }

def updateLocalLocator (log : SyncLog Name) (forwardingHint : Name) : SyncLog Name :=
  log.updateLocator ndn log.localName forwardingHint

def rememberStateInStateLog (sha256 : Bytes → Bytes) (log : SyncLog Name) :
    Hash × SyncLog Name :=
  let remembered := log.db.rememberStateInStateLog sha256
  (remembered.1, { log with db := remembered.2 })

/-- The logs that any sequence of operations, with re-openings of the
database, can produce. -/
inductive Reachable (sha256 : Bytes → Bytes) : SyncLog Name → Prop where
  | construct {localName : Name} {log : SyncLog Name} :
      construct ndn SyncDb.empty localName = some log →
      Reachable sha256 log
  | reopen {log reopened : SyncLog Name} {localName : Name} :
      Reachable sha256 log →
      SyncLog.construct ndn log.db localName = some reopened →
      Reachable sha256 reopened
  | updateDeviceSeqNo {log : SyncLog Name} (name : Name) (seqNo : Int64) :
      Reachable sha256 log →
      Reachable sha256 (log.updateDeviceSeqNo ndn name seqNo)
  | getNextLocalSeqNo {log next : SyncLog Name} {seqNo : Int64} :
      Reachable sha256 log → log.getNextLocalSeqNo = some (seqNo, next) →
      Reachable sha256 next
  | updateLocalSeqNo {log : SyncLog Name} (seqNo : Int64) :
      Reachable sha256 log → Reachable sha256 (log.updateLocalSeqNo seqNo)
  | updateLocator {log : SyncLog Name} (deviceName locator : Name) :
      Reachable sha256 log →
      Reachable sha256 (log.updateLocator ndn deviceName locator)
  | rememberStateInStateLog {log : SyncLog Name} :
      Reachable sha256 log →
      Reachable sha256 (log.rememberStateInStateLog sha256).2

end SyncLog

end ChronoShare
