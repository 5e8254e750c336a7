import ChronoShare.ActionLog.FileView
import ChronoShare.SyncLog.LocalNumber
import ChronoShare.Support.Transaction

/-!
# Local actions under failures

The calls that add a local action, statement by statement.  Each statement may
fail, and the process may end before any of them.  The numbers are in a
database of their own, where every statement is a transaction, and the
transaction of a call covers the actions alone.  The table of files is in a
third database, which these calls write and never read.
-/

namespace ChronoShare

/-- The statements of the calls. -/
inductive Statement where
  | begin
  | selectSeqNo
  | updateSeqNo
  | selectLatest
  | insertAction
  | updateDirectory
  | end
  deriving DecidableEq, Repr

abbrev Failures := Statement → Outcome

structure Databases (Name : Type) where
  actionLog : TransactionTable ActionRow
  syncLog : SyncLog Name

/-- What ends a call early. -/
inductive Interruption where
  | exception
  | crash
  deriving DecidableEq, Repr

/-- The calls that add a local action. -/
inductive LocalCall where
  | update (filename hash : Bytes) (wtime : Int64) (mode segNum : Int32)
  | delete (memory : Nat → UInt8) (filename : Bytes)

abbrev FallibleCall (Name : Type) := EStateM Interruption (Databases Name)

namespace FallibleCall

variable {Name : Type} (platform : ActionPlatform Name) (failures : Failures)

/-- `BEGIN TRANSACTION;`, whose result is not looked at. -/
def beginTransaction : FallibleCall Name Unit := do
  match failures .begin with
  | .crashed => throw .crash
  | .done => modify fun state =>
      { state with actionLog := state.actionLog.begin }
  | _ => pure ()

/-- A statement on the database of actions. -/
def runStatement (statement : Statement)
    (effect : TransactionTable ActionRow → TransactionTable ActionRow) :
    FallibleCall Name Outcome := do
  match failures statement with
  | .crashed => throw .crash
  | outcome =>
      modify fun state =>
        { state with actionLog := state.actionLog.perform outcome effect }
      return outcome

/-- A failure to read the number or to prepare the update throws; a failure of
the update itself is passed over. -/
def getNextLocalSeqNo : FallibleCall Name Int64 := do
  match failures .selectSeqNo with
  | .crashed => throw .crash
  | .done =>
      match (← get).syncLog.getNextLocalSeqNo with
      | none => throw .exception
      | some (seqNo, syncLog) =>
          match failures .updateSeqNo with
          | .crashed => throw .crash
          | .unprepared => throw .exception
          | .done =>
              modify fun state => { state with syncLog := syncLog }
              return seqNo
          | _ => return seqNo
  | _ => throw .exception

/-- A query that fails reads as one without rows. -/
def getLatestActionForFile (filename : Bytes) (choice : Nat) :
    FallibleCall Name (Int64 × Option Bytes × Int64) := do
  match ← runStatement failures .selectLatest id with
  | .unprepared => throw .exception
  | .done =>
      return ActionLog.getLatestActionForFile (← get).actionLog.view filename
        choice
  | _ => return (-1, none, -1)

def insertAction (new : ActionRow) : FallibleCall Name Outcome := do
  let conflict := (← get).actionLog.view.any fun row =>
    row.deviceName = new.deviceName ∧ row.seqNo = new.seqNo
  runStatement failures .insertAction (·.insert new conflict)

/-- `UPDATE ActionLog SET directory=…` and `END TRANSACTION;`, whose results
are not looked at. -/
def endTransaction : FallibleCall Name Unit := do
  let _ ← runStatement failures .updateDirectory id
  let _ ← runStatement failures .end TransactionTable.commit

/-- A failure to prepare the insertion throws. -/
def addLocalActionUpdate (choice : Nat) (actionTime : Int64)
    (filename hash : Bytes) (wtime : Int64) (mode segNum : Int32) :
    FallibleCall Name (Option ActionItem) := do
  beginTransaction failures
  let localName := (← get).syncLog.localName
  let seqNo ← getNextLocalSeqNo failures
  let (latest, parentDeviceName, parentSeqNo) ←
    getLatestActionForFile failures filename choice
  let version := latest + 1
  let parent :=
    if 0 < parentSeqNo then
      parentDeviceName.map fun name => (name, parentSeqNo)
    else
      none
  match ← insertAction failures (ActionLog.updateRow platform localName seqNo
      filename hash version actionTime wtime mode segNum parent) with
  | .unprepared => throw .exception
  | _ =>
      endTransaction failures
      return some (ActionLog.updateItem filename hash version actionTime wtime
        mode segNum parent)

/-- The removal of the file when there is nothing to delete is never prepared,
as the database has no such table. -/
def addLocalActionDelete (choice : Nat) (actionTime : Int64)
    (memory : Nat → UInt8) (filename : Bytes) :
    FallibleCall Name (Option ActionItem) := do
  beginTransaction failures
  let localName := (← get).syncLog.localName
  match ← getLatestActionForFile failures filename choice with
  | (_, none, _) =>
      let _ ← runStatement failures .end TransactionTable.commit
      return none
  | (latest, some parentDeviceName, parentSeqNo) =>
      let version := latest + 1
      let seqNo ← getNextLocalSeqNo failures
      let _ ← insertAction failures (ActionLog.deleteRow platform localName
        seqNo memory filename version actionTime parentDeviceName parentSeqNo)
      endTransaction failures
      return some (ActionLog.deleteItem filename version actionTime
        parentDeviceName parentSeqNo)

def add (choice : Nat) (actionTime : Int64) :
    LocalCall → FallibleCall Name (Option ActionItem)
  | .update filename hash wtime mode segNum =>
      addLocalActionUpdate platform failures choice actionTime filename hash
        wtime mode segNum
  | .delete memory filename =>
      addLocalActionDelete platform failures choice actionTime memory filename

end FallibleCall

namespace Databases

variable {Name : Type} (platform : ActionPlatform Name)

/-- Opening the databases again rolls back what was not committed. -/
def restart (state : Databases Name) : Databases Name :=
  { state with actionLog := state.actionLog.rollback }

/-- The row is that of an action of the local device, which is stored under
the value or under the wire form of its name. -/
def IsLocal (localName : Name) (row : ActionRow) : Prop :=
  row.deviceName = platform.ndn.value localName ∨
    row.deviceName = platform.ndn.wire localName

/-- The row is that of the action with the number of the local device. -/
def IsLast (syncLog : SyncLog Name) (row : ActionRow) : Prop :=
  IsLocal platform syncLog.localName row ∧
    (row.seqNo : WithBot Int64) = syncLog.localNumber

/-- The number of the local device is above the previous one only if there is
an action of that number. -/
def Numbered (start state : Databases Name) : Prop :=
  start.syncLog.localNumber < state.syncLog.localNumber →
    ∃ row ∈ state.actionLog.view, IsLast platform state.syncLog row

/-- Both databases are as they were. -/
structure Unchanged (start state : Databases Name) : Prop where
  committed : state.actionLog.committed = start.actionLog.committed
  view : state.actionLog.view = start.actionLog.view
  syncLog : state.syncLog = start.syncLog

/-- What holds after a call and after a restart. -/
def Sound (start : Databases Name) :
    EStateM.Result Interruption (Databases Name) (Option ActionItem) → Prop
  | .error .crash state => Numbered platform start state.restart
  | .error .exception state | .ok none state =>
      (Numbered platform start state ∧
          Numbered platform start state.restart) ∧
        Unchanged start state
  | .ok (some _) state =>
      Numbered platform start state ∧ Numbered platform start state.restart

end Databases

namespace FallibleCall

variable {Name : Type} (platform : ActionPlatform Name) (failures : Failures)

/-- The statements on the numbers raise the number, which is not the last. -/
def Raises (start : Databases Name) : Prop :=
  failures .begin ≠ .crashed ∧ failures .selectSeqNo = .done ∧
    failures .updateSeqNo = .done ∧
      ∃ row ∈ start.syncLog.localRow, row.seqNo < row.seqNo + 1

/-- There is an action of the next number among the rows. -/
def HasNext (start : Databases Name) (rows : List ActionRow) : Prop :=
  ∃ row ∈ rows, Databases.IsLocal platform start.syncLog.localName row ∧
    ∃ node ∈ start.syncLog.localRow, row.seqNo = node.seqNo + 1

/-- The insertion is committed, by itself or with its transaction. -/
def Settles (closed known : Prop) : Prop :=
  failures .insertAction ≠ .crashed ∧
    (closed ∧ failures .insertAction = .done ∨
      ¬ closed ∧ failures .end = .done ∧
        failures .updateDirectory ≠ .crashed ∧
        failures .updateDirectory ≠ .rolledBack ∧
        (failures .insertAction = .done ∨
          failures .insertAction ≠ .rolledBack ∧ known))

/-- The action of the next number is stored for good: it was, or the call
inserts it outside of a transaction or commits it. -/
def Recorded (start : Databases Name) : Prop :=
  HasNext platform start start.actionLog.committed ∨
    failures .selectLatest ≠ .crashed ∧
      Settles failures
        (start.actionLog.added = none ∧ failures .begin ≠ .done ∨
          failures .selectLatest = .rolledBack)
        (HasNext platform start start.actionLog.view)

/-- An open transaction has rows. -/
def Pending (start : Databases Name) : Prop :=
  start.actionLog.added.getD [] ≠ []

/-- A number that is raised gets its action, and no exception comes after it;
and no exception comes after a rollback of rows from earlier calls. -/
def UpdateKept (start : Databases Name) : Prop :=
  (Raises failures start →
    failures .selectLatest ≠ .unprepared ∧
      (failures .selectLatest ≠ .crashed →
        failures .insertAction ≠ .unprepared) ∧
      Recorded platform failures start) ∧
  ¬ (failures .begin ≠ .crashed ∧ failures .selectSeqNo = .done ∧
    start.syncLog.localRow ≠ none ∧ failures .updateSeqNo ≠ .crashed ∧
    failures .updateSeqNo ≠ .unprepared ∧
    failures .selectLatest = .rolledBack ∧
    failures .insertAction = .unprepared ∧ Pending start)

/-- A number that is raised gets its action; and without anything to delete no
rows of earlier calls are committed or rolled back. -/
def DeleteKept (start : Databases Name) (filename : Bytes) (choice : Nat) :
    Prop :=
  failures .begin ≠ .crashed → failures .selectLatest ≠ .crashed →
    failures .selectLatest ≠ .unprepared →
      if failures .selectLatest = .done ∧
          (ActionLog.getLatestActionForFile start.actionLog.view filename
            choice).2.1 ≠ none then
        Raises failures start → Recorded platform failures start
      else
        failures .end = .crashed ∨ ¬ Pending start ∨
          failures .selectLatest ≠ .rolledBack ∧ failures .end ≠ .done ∧
            failures .end ≠ .rolledBack

def Kept (start : Databases Name) (choice : Nat) : LocalCall → Prop
  | .update .. => UpdateKept platform failures start
  | .delete _ filename => DeleteKept platform failures start filename choice

end FallibleCall

end ChronoShare
