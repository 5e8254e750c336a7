import ChronoShare.SyncLog.Operations
import ChronoShare.Support.WorkingCopy

/-!
# Remembering a state under failures

`RememberStateInStateLog` call by call, where every call of the database may
fail.  The results of some calls are added up and looked at, and that of the
insertion of the devices is not.
-/

namespace ChronoShare

/-- The calls of the database. -/
inductive RememberCall where
  | begin
  | insertSyncLog
  | prepareInsert
  | bindInsert
  | stepInsert
  | prepareSelect
  | bindSelect
  | stepSelect
  | commit
  | rollback
  deriving DecidableEq, Repr

abbrev RememberFailures := RememberCall → Ending

/-- The exceptions, by their texts: the one of the database, "Not a valid hash
in rememberStateInStateLog", and "Some error with rememberStateInStateLog". -/
inductive RememberException where
  | errmsg
  | notAValidHash
  | someError
  deriving DecidableEq, Repr

abbrev RememberResult := Except RememberException Hash × WorkingCopy SyncDb

namespace RememberFailures

variable (failures : RememberFailures)

def code (call : RememberCall) : Nat :=
  (failures call).code

/-- `ROLLBACK TRANSACTION;`, whose result is not looked at. -/
def abandon (exception : RememberException) (state : WorkingCopy SyncDb) :
    RememberResult :=
  (.error exception, (state.exec (failures .rollback) WorkingCopy.rollback).2)

/-- `COMMIT;`. -/
def finish (res : Nat) (stateHash : Hash) (state : WorkingCopy SyncDb) :
    RememberResult :=
  let (committed, state) := state.exec (failures .commit) WorkingCopy.commit
  if res + committed ≠ 0 then
    abandon failures .someError state
  else
    (.ok stateHash, state)

/-- `SELECT state_hash FROM SyncLog WHERE state_id = ?`; the parameter is NULL
where it is not bound, and then there is no row. -/
def readStateHash (res rowId : Nat) (state : WorkingCopy SyncDb) :
    RememberResult :=
  let prepared := failures.code .prepareSelect
  let bound := failures.code .bindSelect
  let (stepRes, state) :=
    if prepared ≠ 0 then (1, state)
    else state.exec (failures .stepSelect) some
  let row :=
    if stepRes = 0 ∧ bound = 0 then
      state.view.syncLog.find? fun entry => entry.stateId = rowId
    else
      none
  match row with
  | none => abandon failures .notAValidHash state
  | some entry =>
      finish failures (res + prepared + bound) entry.stateHash state

/-- `INSERT INTO SyncStateNodes`, which is stepped whatever became of it; no row
is inserted for a parameter that is NULL. -/
def insertSyncStateNodes (res rowId : Nat) (state : WorkingCopy SyncDb) :
    RememberResult :=
  let prepared := failures.code .prepareInsert
  let bound := failures.code .bindInsert
  let (_, state) :=
    if prepared ≠ 0 then (1, state)
    else if bound ≠ 0 then state.exec (failures .stepInsert) some
    else state.exec (failures .stepInsert)
      (·.write (·.insertSyncStateNodes rowId))
  let res := res + prepared + bound
  if res ≠ 0 then
    abandon failures .errmsg state
  else
    readStateHash failures res rowId state

variable (sha256 : Bytes → Bytes)

def rememberStateInStateLog (db : SyncDb) : RememberResult :=
  let (begun, state) :=
    WorkingCopy.exec ⟨db, none⟩ (failures .begin) WorkingCopy.begin
  let (inserted, state) := state.exec (failures .insertSyncLog)
    (·.write fun db => db.insertSyncLog (SyncDb.digest sha256 db.syncNodes))
  let res := begun + inserted
  if res ≠ 0 then
    abandon failures .errmsg state
  else
    insertSyncStateNodes failures res state.view.lastStateId state

end RememberFailures

namespace SyncDb

/-- The hash has an entry whose rows are the devices with their numbers. -/
def Complete (db : SyncDb) (stateHash : Hash) : Prop :=
  ∃ entry ∈ db.syncLog, entry.stateHash = stateHash ∧
    ((db.syncStateNodes.filter fun row => row.stateId = entry.stateId).map
      fun row => (row.deviceId, row.seqNo)).Perm
      (db.syncNodes.map fun node => (node.deviceId, node.seqNo))

/-- The keys of the log have been handed out. -/
structure Keyed (db : SyncDb) : Prop where
  entries : ∀ entry ∈ db.syncLog, entry.stateId ≤ db.lastStateId
  rows : ∀ row ∈ db.syncStateNodes, row.stateId ≤ db.lastStateId

end SyncDb

/-- A hash that is returned has its complete entry, and an exception leaves the
two tables as they were and no transaction open. -/
structure RememberResult.Sound (db : SyncDb) (result : RememberResult) :
    Prop where
  returned : ∀ stateHash, result.1 = .ok stateHash →
    result.2.view.Complete stateHash
  thrown : ∀ exception, result.1 = .error exception →
    result.2.view.syncLog = db.syncLog ∧
      result.2.view.syncStateNodes = db.syncStateNodes ∧
        result.2.working = none

namespace RememberFailures

variable (failures : RememberFailures)

/-- With the transaction open, a call fails from the query of the hash on. -/
def FailsReading : Prop :=
  failures .prepareSelect ≠ .done ∨ failures .stepSelect = .failed ∨
    (failures .stepSelect = .done ∧
      (failures .bindSelect ≠ .done ∨ failures .commit = .failed))

/-- With the transaction open, a call that is looked at fails after the first
insertion. -/
def FailsSaving : Prop :=
  failures .prepareInsert ≠ .done ∨
    (failures .stepInsert ≠ .rolledBack ∧
      (failures .bindInsert ≠ .done ∨ failures.FailsReading))

/-- With the transaction open, a call that is looked at fails. -/
def FailsOpen : Prop :=
  failures .begin = .done ∧
    (failures .insertSyncLog = .failed ∨
      (failures .insertSyncLog = .done ∧ failures.FailsSaving))

/-- Only the insertion of the devices fails, and leaves the transaction open. -/
def LosesDevices : Prop :=
  failures .stepInsert = .failed ∧
    ∀ call, call ≠ .stepInsert → call ≠ .rollback → failures call = .done

/-- The first insertion succeeds in a transaction only, the insertion of the
devices does not fail alone, and an open transaction can be rolled back. -/
structure Keeps (db : SyncDb) : Prop where
  inTransaction : failures .insertSyncLog = .done → failures .begin = .done
  saved : failures.LosesDevices → db.syncNodes = []
  undone : failures.FailsOpen → failures .rollback ≠ .failed

variable {failures} {db working : SyncDb} {rowId : Nat}

theorem sound_ok_iff {stateHash : Hash} {state : WorkingCopy SyncDb} :
    RememberResult.Sound db (.ok stateHash, state) ↔
      state.view.Complete stateHash := by
  constructor
  · intro sound
    exact sound.returned stateHash rfl
  · intro complete
    refine ⟨fun other same => ?_, nofun⟩
    obtain rfl := Except.ok.inj same
    exact complete

theorem sound_error_iff {exception : RememberException}
    {state : WorkingCopy SyncDb} :
    RememberResult.Sound db (.error exception, state) ↔
      state.view.syncLog = db.syncLog ∧
        state.view.syncStateNodes = db.syncStateNodes ∧
          state.working = none := by
  constructor
  · intro sound
    exact sound.thrown exception rfl
  · intro kept
    exact ⟨nofun, fun _ _ => kept⟩

theorem abandon_sound (exception : RememberException)
    (copy : Option SyncDb) :
    (abandon failures exception ⟨db, copy⟩).Sound db ↔
      (copy ≠ none → failures .rollback ≠ .failed) := by
  rw [abandon, sound_error_iff]
  cases copy with
  | none =>
      have closed : (WorkingCopy.exec ⟨db, none⟩ (failures .rollback)
          WorkingCopy.rollback).2 = ⟨db, none⟩ := by
        cases failures .rollback <;> rfl
      rw [closed]
      simp [WorkingCopy.view]
  | some working =>
      cases ending : failures .rollback with
      | failed => simp [WorkingCopy.exec]
      | done => simp [WorkingCopy.exec, WorkingCopy.rollback, WorkingCopy.view]
      | rolledBack => simp [WorkingCopy.exec, WorkingCopy.view]

theorem finish_sound (stateHash : Hash) :
    (finish failures 0 stateHash ⟨db, some working⟩).Sound db ↔
      (failures .commit = .done → working.Complete stateHash) ∧
        (failures .commit = .failed → failures .rollback ≠ .failed) := by
  cases ending : failures .commit with
  | done =>
      have committed : finish failures 0 stateHash ⟨db, some working⟩ =
          (.ok stateHash, ⟨working, none⟩) := by
        rw [finish, ending]
        rfl
      rw [committed, sound_ok_iff]
      simp [WorkingCopy.view]
  | failed =>
      have abandoned : finish failures 0 stateHash ⟨db, some working⟩ =
          abandon failures .someError ⟨db, some working⟩ := by
        rw [finish, ending]
        rfl
      rw [abandoned, abandon_sound]
      simp
  | rolledBack =>
      have abandoned : finish failures 0 stateHash ⟨db, some working⟩ =
          abandon failures .someError ⟨db, none⟩ := by
        rw [finish, ending]
        rfl
      rw [abandoned, abandon_sound]
      simp

theorem code_ne_zero {ending : Ending} (undone : ending ≠ .done) :
    ending.code = 1 := by
  cases ending with
  | done => exact absurd rfl undone
  | failed => rfl
  | rolledBack => rfl

theorem readStateHash_sound {entry : SyncLogEntry}
    (found : (working.syncLog.find? fun entry => entry.stateId = rowId) =
      some entry) :
    (readStateHash failures 0 rowId ⟨db, some working⟩).Sound db ↔
      (failures .prepareSelect = .done → failures .bindSelect = .done →
        failures .stepSelect = .done → failures .commit = .done →
          working.Complete entry.stateHash) ∧
        (failures.FailsReading → failures .rollback ≠ .failed) := by
  by_cases prepared : failures .prepareSelect = .done
  · cases stepped : failures .stepSelect with
    | done =>
        by_cases bound : failures .bindSelect = .done
        · have finished : readStateHash failures 0 rowId ⟨db, some working⟩ =
              finish failures 0 entry.stateHash ⟨db, some working⟩ := by
            simp [readStateHash, code, prepared, bound, stepped, Ending.code,
              WorkingCopy.exec, WorkingCopy.view, found]
          rw [finished, finish_sound]
          simp [FailsReading, prepared, bound, stepped]
        · have abandoned : readStateHash failures 0 rowId ⟨db, some working⟩ =
              abandon failures .notAValidHash ⟨db, some working⟩ := by
            simp [readStateHash, code, prepared, stepped, Ending.code,
              WorkingCopy.exec]
          rw [abandoned, abandon_sound]
          simp [FailsReading, prepared, bound, stepped]
    | failed =>
        have abandoned : readStateHash failures 0 rowId ⟨db, some working⟩ =
            abandon failures .notAValidHash ⟨db, some working⟩ := by
          simp [readStateHash, code, prepared, stepped, Ending.code,
            WorkingCopy.exec]
        rw [abandoned, abandon_sound]
        simp [FailsReading, prepared, stepped]
    | rolledBack =>
        have abandoned : readStateHash failures 0 rowId ⟨db, some working⟩ =
            abandon failures .notAValidHash ⟨db, none⟩ := by
          simp [readStateHash, code, prepared, stepped, Ending.code,
            WorkingCopy.exec]
        rw [abandoned, abandon_sound]
        simp [FailsReading, prepared, stepped]
  · have abandoned : readStateHash failures 0 rowId ⟨db, some working⟩ =
        abandon failures .notAValidHash ⟨db, some working⟩ := by
      simp [readStateHash, code, code_ne_zero prepared]
    rw [abandoned, abandon_sound]
    simp [FailsReading, prepared]

theorem readStateHash_closed_sound
    (absent : (db.syncLog.find? fun entry => entry.stateId = rowId) = none) :
    (readStateHash failures 0 rowId ⟨db, none⟩).Sound db := by
  have abandoned : readStateHash failures 0 rowId ⟨db, none⟩ =
      abandon failures .notAValidHash ⟨db, none⟩ := by
    by_cases prepared : failures .prepareSelect = .done
    · cases stepped : failures .stepSelect <;>
        simp [readStateHash, code, prepared, stepped, Ending.code,
          WorkingCopy.exec, WorkingCopy.view, absent]
    · simp [readStateHash, code, code_ne_zero prepared]
  rw [abandoned, abandon_sound]
  exact fun open? => absurd rfl open?

theorem insertSyncStateNodes_sound {logged : SyncDb} {entry : SyncLogEntry}
    (absent : (db.syncLog.find? fun entry => entry.stateId = rowId) = none)
    (found : (logged.syncLog.find? fun entry => entry.stateId = rowId) =
      some entry)
    (incomplete : logged.Complete entry.stateHash ↔ db.syncNodes = [])
    (complete : (logged.insertSyncStateNodes rowId).Complete
      entry.stateHash) :
    (insertSyncStateNodes failures 0 rowId ⟨db, some logged⟩).Sound db ↔
      (failures .prepareInsert = .done → failures .bindInsert = .done →
        failures .stepInsert = .failed → failures .prepareSelect = .done →
          failures .bindSelect = .done → failures .stepSelect = .done →
            failures .commit = .done → db.syncNodes = []) ∧
        (failures.FailsSaving → failures .rollback ≠ .failed) := by
  by_cases prepared : failures .prepareInsert = .done
  · by_cases bound : failures .bindInsert = .done
    · cases stepped : failures .stepInsert with
      | done =>
          have saved : insertSyncStateNodes failures 0 rowId
              ⟨db, some logged⟩ = readStateHash failures 0 rowId
                ⟨db, some (logged.insertSyncStateNodes rowId)⟩ := by
            simp [insertSyncStateNodes, code, prepared, bound, stepped,
              Ending.code, WorkingCopy.exec, WorkingCopy.write]
          have kept : ((logged.insertSyncStateNodes rowId).syncLog.find?
              fun entry => entry.stateId = rowId) = some entry := found
          rw [saved, readStateHash_sound kept]
          simp [FailsSaving, prepared, bound, stepped, complete]
      | failed =>
          have lost : insertSyncStateNodes failures 0 rowId
              ⟨db, some logged⟩ = readStateHash failures 0 rowId
                ⟨db, some logged⟩ := by
            simp [insertSyncStateNodes, code, prepared, bound, stepped,
              Ending.code, WorkingCopy.exec]
          rw [lost, readStateHash_sound found, incomplete]
          simp [FailsSaving, prepared, bound, stepped]
      | rolledBack =>
          have undone : insertSyncStateNodes failures 0 rowId
              ⟨db, some logged⟩ = readStateHash failures 0 rowId
                ⟨db, none⟩ := by
            simp [insertSyncStateNodes, code, prepared, bound, stepped,
              Ending.code, WorkingCopy.exec]
          rw [undone]
          simp [FailsSaving, prepared, stepped,
            readStateHash_closed_sound absent]
    · have abandoned : insertSyncStateNodes failures 0 rowId
          ⟨db, some logged⟩ = abandon failures .errmsg
            ⟨db, if failures .stepInsert = .rolledBack then none
              else some logged⟩ := by
        cases stepped : failures .stepInsert <;>
          simp [insertSyncStateNodes, code, prepared, stepped, Ending.code,
            WorkingCopy.exec]
      rw [abandoned, abandon_sound]
      simp [FailsSaving, prepared, bound]
  · have abandoned : insertSyncStateNodes failures 0 rowId
        ⟨db, some logged⟩ = abandon failures .errmsg ⟨db, some logged⟩ := by
      simp [insertSyncStateNodes, code, code_ne_zero prepared]
    rw [abandoned, abandon_sound]
    simp [FailsSaving, prepared]

section Tables

variable {stateHash : Hash}

theorem absent_of_keyed (keyed : db.Keyed) :
    (db.syncLog.find? fun entry => entry.stateId = db.lastStateId + 1) =
      none := by
  rw [List.find?_eq_none]
  intro entry member same
  have bound := keyed.entries entry member
  have here : entry.stateId = db.lastStateId + 1 := by simpa using same
  omega

theorem found_insertSyncLog (keyed : db.Keyed) (stateHash : Hash) :
    ((db.insertSyncLog stateHash).syncLog.find?
      fun entry => entry.stateId = db.lastStateId + 1) =
        some ⟨db.lastStateId + 1, stateHash⟩ := by
  rw [SyncDb.insertSyncLog, List.find?_append, List.find?_eq_none.mpr]
  · simp
  · intro entry member
    have bound := keyed.entries entry (List.mem_of_mem_filter member)
    simp only [decide_eq_true_eq]
    omega

theorem complete_iff {logged : SyncDb}
    (entries : logged.syncLog = (db.insertSyncLog stateHash).syncLog) :
    logged.Complete stateHash ↔
      ((logged.syncStateNodes.filter fun row =>
        row.stateId = db.lastStateId + 1).map
          fun row => (row.deviceId, row.seqNo)).Perm
        (logged.syncNodes.map fun node => (node.deviceId, node.seqNo)) := by
  rw [SyncDb.Complete, entries]
  constructor
  · rintro ⟨entry, member, sameHash, rows⟩
    rcases List.mem_append.mp member with before | new
    · have different := (List.mem_filter.mp before).2
      exact absurd sameHash (of_decide_eq_true different)
    · obtain rfl := List.mem_singleton.mp new
      exact rows
  · intro rows
    exact ⟨⟨db.lastStateId + 1, stateHash⟩,
      List.mem_append_right _ (List.mem_singleton.mpr rfl), rfl, rows⟩

theorem rows_insertSyncLog (keyed : db.Keyed) :
    ((db.insertSyncLog stateHash).syncStateNodes.filter fun row =>
      row.stateId = db.lastStateId + 1) = [] := by
  rw [List.filter_eq_nil_iff]
  intro row member
  have bound := keyed.rows row (List.mem_of_mem_filter member)
  simp only [decide_eq_true_eq]
  omega

theorem complete_insertSyncLog (keyed : db.Keyed) :
    (db.insertSyncLog stateHash).Complete stateHash ↔ db.syncNodes = [] := by
  rw [complete_iff rfl, rows_insertSyncLog keyed]
  constructor
  · intro same
    have none := same.length_eq
    rw [List.map_nil, List.length_nil, List.length_map] at none
    exact List.eq_nil_of_length_eq_zero none.symm
  · intro empty
    have kept : (db.insertSyncLog stateHash).syncNodes = [] := empty
    rw [kept]
    rfl

theorem complete_insertSyncStateNodes (keyed : db.Keyed) :
    ((db.insertSyncLog stateHash).insertSyncStateNodes
      (db.lastStateId + 1)).Complete stateHash := by
  have entries : ((db.insertSyncLog stateHash).insertSyncStateNodes
      (db.lastStateId + 1)).syncLog = (db.insertSyncLog stateHash).syncLog :=
    rfl
  rw [complete_iff entries, SyncDb.insertSyncStateNodes, List.filter_append,
    rows_insertSyncLog keyed]
  have all : ((db.insertSyncLog stateHash).syncNodes.map fun node =>
      (⟨db.lastStateId + 1, node.deviceId, node.seqNo⟩ : SyncStateNode)).filter
        (fun row => row.stateId = db.lastStateId + 1) =
      (db.insertSyncLog stateHash).syncNodes.map fun node =>
        ⟨db.lastStateId + 1, node.deviceId, node.seqNo⟩ := by
    rw [List.filter_eq_self]
    intro row member
    obtain ⟨node, -, rfl⟩ := List.mem_map.mp member
    exact decide_eq_true rfl
  rw [all, List.nil_append, List.map_map]
  exact List.Perm.refl _

end Tables

theorem losesDevices_iff :
    failures.LosesDevices ↔
      failures .begin = .done ∧ failures .insertSyncLog = .done ∧
        failures .prepareInsert = .done ∧ failures .bindInsert = .done ∧
          failures .stepInsert = .failed ∧
            failures .prepareSelect = .done ∧ failures .bindSelect = .done ∧
              failures .stepSelect = .done ∧ failures .commit = .done := by
  constructor
  · rintro ⟨stepped, others⟩
    exact ⟨others _ nofun nofun, others _ nofun nofun, others _ nofun nofun,
      others _ nofun nofun, stepped, others _ nofun nofun,
      others _ nofun nofun, others _ nofun nofun, others _ nofun nofun⟩
  · rintro ⟨begun, inserted, prepared, bound, stepped, ready, read, found,
      committed⟩
    refine ⟨stepped, fun call notStep notRollback => ?_⟩
    cases call with
    | begin => exact begun
    | insertSyncLog => exact inserted
    | prepareInsert => exact prepared
    | bindInsert => exact bound
    | stepInsert => exact absurd rfl notStep
    | prepareSelect => exact ready
    | bindSelect => exact read
    | stepSelect => exact found
    | commit => exact committed
    | rollback => exact absurd rfl notRollback

theorem unsound_of_unbegun {stateHash : Hash} (keyed : db.Keyed)
    (exception : RememberException) :
    ¬ (abandon failures exception
      ⟨db.insertSyncLog stateHash, none⟩).Sound db := by
  intro sound
  have closed : (WorkingCopy.exec ⟨db.insertSyncLog stateHash, none⟩
      (failures .rollback) WorkingCopy.rollback).2 =
        ⟨db.insertSyncLog stateHash, none⟩ := by
    cases failures .rollback <;> rfl
  rw [abandon, closed, sound_error_iff] at sound
  have same : (db.insertSyncLog stateHash).syncLog = db.syncLog := sound.1
  have found := found_insertSyncLog keyed stateHash
  rw [same, absent_of_keyed keyed] at found
  cases found

theorem begun_sound (sha256 : Bytes → Bytes) (keyed : db.Keyed)
    (begun : failures .begin = .done) :
    (rememberStateInStateLog failures sha256 db).Sound db ↔
      (failures.LosesDevices → db.syncNodes = []) ∧
        (failures.FailsOpen → failures .rollback ≠ .failed) := by
  rw [losesDevices_iff]
  cases inserted : failures .insertSyncLog with
  | done =>
      have logged : rememberStateInStateLog failures sha256 db =
          insertSyncStateNodes failures 0 (db.lastStateId + 1) ⟨db,
            some (db.insertSyncLog
              (SyncDb.digest sha256 db.syncNodes))⟩ := by
        simp [rememberStateInStateLog, begun, inserted, WorkingCopy.exec,
          WorkingCopy.begin, WorkingCopy.write, WorkingCopy.view,
          SyncDb.insertSyncLog]
      rw [logged, insertSyncStateNodes_sound (absent_of_keyed keyed)
        (found_insertSyncLog keyed _) (complete_insertSyncLog keyed)
        (complete_insertSyncStateNodes keyed)]
      simp [FailsOpen, begun, inserted]
  | failed =>
      have abandoned : rememberStateInStateLog failures sha256 db =
          abandon failures .errmsg ⟨db, some db⟩ := by
        simp [rememberStateInStateLog, begun, inserted, WorkingCopy.exec,
          WorkingCopy.begin]
      rw [abandoned, abandon_sound]
      simp [FailsOpen, begun, inserted]
  | rolledBack =>
      have abandoned : rememberStateInStateLog failures sha256 db =
          abandon failures .errmsg ⟨db, none⟩ := by
        simp [rememberStateInStateLog, begun, inserted, WorkingCopy.exec,
          WorkingCopy.begin]
      rw [abandoned, abandon_sound]
      simp [FailsOpen, inserted]

/-- Without a transaction there is an exception, and the first insertion is not
undone. -/
theorem unbegun_sound (sha256 : Bytes → Bytes) (keyed : db.Keyed)
    (unbegun : failures .begin ≠ .done) :
    (rememberStateInStateLog failures sha256 db).Sound db ↔
      failures .insertSyncLog ≠ .done := by
  have closed : WorkingCopy.exec ⟨db, none⟩ (failures .begin)
      WorkingCopy.begin = (1, ⟨db, none⟩) := by
    cases ending : failures .begin with
    | done => exact absurd ending unbegun
    | failed => rfl
    | rolledBack => rfl
  have thrown : rememberStateInStateLog failures sha256 db =
      abandon failures .errmsg (WorkingCopy.exec ⟨db, none⟩
        (failures .insertSyncLog) (·.write fun db => db.insertSyncLog
          (SyncDb.digest sha256 db.syncNodes))).2 := by
    rw [rememberStateInStateLog, closed]
    simp
  have atOnce : failures .insertSyncLog ≠ .done →
      (abandon failures .errmsg ⟨db, none⟩).Sound db := fun _ =>
    (abandon_sound .errmsg none).mpr fun opened => absurd rfl opened
  rw [thrown]
  cases inserted : failures .insertSyncLog with
  | done => simp [WorkingCopy.exec, WorkingCopy.write, unsound_of_unbegun keyed]
  | failed => simpa [inserted, WorkingCopy.exec] using atOnce
  | rolledBack => simpa [inserted, WorkingCopy.exec] using atOnce

/-- Whatever calls fail, the call returns a hash with a complete entry or leaves
everything as it was, exactly under these conditions. -/
theorem sound_iff_keeps (failures : RememberFailures) (sha256 : Bytes → Bytes)
    {db : SyncDb} (keyed : db.Keyed) :
    (rememberStateInStateLog failures sha256 db).Sound db ↔
      failures.Keeps db := by
  by_cases begun : failures .begin = .done
  · rw [begun_sound sha256 keyed begun]
    exact ⟨fun ⟨saved, undone⟩ => ⟨fun _ => begun, saved, undone⟩,
      fun keeps => ⟨keeps.saved, keeps.undone⟩⟩
  · rw [unbegun_sound sha256 keyed begun]
    constructor
    · intro refused
      refine ⟨fun inserted => absurd inserted refused, fun loses => ?_,
        fun fails => absurd fails.1 begun⟩
      exact absurd (loses.2 .begin nofun nofun) begun
    · intro keeps inserted
      exact begun (keeps.inTransaction inserted)

/-- The call with one device, where `COMMIT` fails. -/
theorem sound_iff_keeps_uncommitted :
    (rememberStateInStateLog
      (fun call => if call = .commit then .failed else .done) id
      ⟨[⟨1, [], 1, none⟩], [], [], 1, 0⟩).Sound
        ⟨[⟨1, [], 1, none⟩], [], [], 1, 0⟩ := by
  apply (sound_iff_keeps _ id
    ⟨List.forall_mem_nil _, List.forall_mem_nil _⟩).mpr
  constructor
  · intro _
    rfl
  · rintro ⟨lost, -⟩
    cases lost
  · intro _
    nofun

/-- The devices are not inserted, and the hash is returned. -/
theorem unsaved_devices_not_sound :
    ¬ ∀ failures sha256 (db : SyncDb), db.Keyed →
      (rememberStateInStateLog failures sha256 db).Sound db := by
  intro always
  have sound := always
    (fun call => if call = .stepInsert then .failed else .done) id
    ⟨[⟨1, [], 1, none⟩], [], [], 1, 0⟩
    ⟨List.forall_mem_nil _, List.forall_mem_nil _⟩
  obtain ⟨entry, member, -, rows⟩ := sound.returned _ rfl
  have none := rows.length_eq
  cases none

theorem keyed_of_wellFormed {Name : Type} {ndn : NameOps Name}
    (wellFormed : db.WellFormed ndn sha256) : db.Keyed where
  entries := fun entry member => (wellFormed.stateIdsBounded entry member).2
  rows := wellFormed.stateRowsBounded

theorem keyed_insertSyncLog (keyed : db.Keyed) (stateHash : Hash) :
    (db.insertSyncLog stateHash).Keyed := by
  constructor
  · intro entry member
    change entry.stateId ≤ db.lastStateId + 1
    rcases List.mem_append.mp member with before | new
    · have bound := keyed.entries entry (List.mem_of_mem_filter before)
      omega
    · obtain rfl := List.mem_singleton.mp new
      exact le_refl _
  · intro row member
    change row.stateId ≤ db.lastStateId + 1
    have bound := keyed.rows row (List.mem_of_mem_filter member)
    omega

theorem keyed_insertSyncStateNodes (keyed : db.Keyed) :
    (db.insertSyncStateNodes db.lastStateId).Keyed := by
  constructor
  · exact keyed.entries
  · intro row member
    rcases List.mem_append.mp member with before | new
    · exact keyed.rows row before
    · obtain ⟨node, -, rfl⟩ := List.mem_map.mp new
      exact le_refl _

section Keyed

variable {state : WorkingCopy SyncDb}

theorem keyed_abandon (keyed : state.Both SyncDb.Keyed)
    (exception : RememberException) :
    (abandon failures exception state).2.Both SyncDb.Keyed :=
  keyed.exec (fun _ undone => keyed.rollback undone) _

theorem keyed_finish (keyed : state.Both SyncDb.Keyed) (res : Nat)
    (stateHash : Hash) :
    (finish failures res stateHash state).2.Both SyncDb.Keyed := by
  have committed := keyed.exec (fun _ done => keyed.commit done)
    (failures .commit)
  rw [finish]
  dsimp only
  split
  · exact keyed_abandon committed _
  · exact committed

theorem keyed_readStateHash (keyed : state.Both SyncDb.Keyed)
    (res rowId : Nat) :
    (readStateHash failures res rowId state).2.Both SyncDb.Keyed := by
  have read : (if failures.code .prepareSelect ≠ 0 then (1, state)
      else state.exec (failures .stepSelect) some).2.Both SyncDb.Keyed := by
    split
    · exact keyed
    · exact keyed.exec (fun _ same => Option.some.inj same ▸ keyed) _
  rw [readStateHash]
  dsimp only
  split
  · exact keyed_abandon read _
  · exact keyed_finish read _ _

theorem keyed_saved (keyed : state.Both SyncDb.Keyed) (res : Nat) :
    (insertSyncStateNodes failures res state.view.lastStateId state).2.Both
      SyncDb.Keyed := by
  have saved : (if failures.code .prepareInsert ≠ 0 then (1, state)
      else if failures.code .bindInsert ≠ 0 then
        state.exec (failures .stepInsert) some
      else state.exec (failures .stepInsert)
        (·.write (·.insertSyncStateNodes state.view.lastStateId))).2.Both
          SyncDb.Keyed := by
    split
    · exact keyed
    · split
      · exact keyed.exec (fun _ same => Option.some.inj same ▸ keyed) _
      · exact keyed.exec (fun _ written =>
          keyed.write (keyed_insertSyncStateNodes keyed.view) written) _
  rw [insertSyncStateNodes]
  dsimp only
  split
  · exact keyed_abandon saved _
  · exact keyed_readStateHash saved _ _

end Keyed

theorem keyed_rememberStateInStateLog (keyed : db.Keyed) :
    (rememberStateInStateLog failures sha256 db).2.Both SyncDb.Keyed := by
  have closed : WorkingCopy.Both ⟨db, none⟩ SyncDb.Keyed := ⟨keyed, nofun⟩
  have begun := closed.exec (fun _ opened => closed.begin opened)
    (failures .begin)
  have inserted : (WorkingCopy.exec _ (failures .insertSyncLog)
      (·.write fun db => db.insertSyncLog
        (SyncDb.digest sha256 db.syncNodes))).2.Both SyncDb.Keyed :=
    begun.exec (fun _ written => begun.write
      (keyed_insertSyncLog begun.view _) written) _
  rw [rememberStateInStateLog]
  dsimp only
  split
  · exact keyed_abandon inserted _
  · exact keyed_saved inserted _

end RememberFailures

end ChronoShare
