import ChronoShare.SyncLog.Digest

/-!
# Every logged state is a remembered state

The invariant of the three tables: one row per device, one entry per hash, and
for each logged hash the rows of the table of devices as they were when that
hash was remembered.  The operations act on two derived maps, the current one
and the snapshot of a hash, and the lemmas at the end say how.
-/

namespace ChronoShare

namespace SyncDb

variable {Name : Type} {ndn : NameOps Name} {sha256 : Bytes → Bytes}

/-- `rows` is the table of devices that `entry` remembers. -/
structure Snapshot (ndn : NameOps Name) (sha256 : Bytes → Bytes)
    (db : SyncDb) (entry : SyncLogEntry) (rows : List SyncNode) : Prop where
  hash : entry.stateHash = digest sha256 rows
  named : NamedRows ndn rows
  nonempty : rows ≠ []
  stored : ∀ deviceId seqNo,
    ⟨entry.stateId, deviceId, seqNo⟩ ∈ db.syncStateNodes ↔
      ∃ row ∈ rows, row.deviceId = deviceId ∧ row.seqNo = seqNo
  known : ∀ row ∈ rows, ∃ current ∈ db.syncNodes,
    current.deviceId = row.deviceId ∧
      current.deviceName = row.deviceName ∧ row.seqNo ≤ current.seqNo

structure WellFormed (ndn : NameOps Name) (sha256 : Bytes → Bytes)
    (db : SyncDb) : Prop where
  named : NamedRows ndn db.syncNodes
  nonempty : db.syncNodes ≠ []
  idsUnique : (db.syncNodes.map (·.deviceId)).Nodup
  idsBounded : ∀ row ∈ db.syncNodes, row.deviceId ≤ db.lastDeviceId
  hashesUnique : (db.syncLog.map (·.stateHash)).Nodup
  stateIdsUnique : (db.syncLog.map (·.stateId)).Nodup
  stateIdsBounded : ∀ entry ∈ db.syncLog,
    0 < entry.stateId ∧ entry.stateId ≤ db.lastStateId
  stateRowsBounded : ∀ row ∈ db.syncStateNodes, row.stateId ≤ db.lastStateId
  stateRowsUnique : db.syncStateNodes.Nodup
  snapshots : ∀ entry ∈ db.syncLog, ∃ rows, Snapshot ndn sha256 db entry rows

/-- The map a logged hash stands for; `⊥` everywhere for an unknown hash. -/
def snapshot (db : SyncDb) (stateHash : Hash) : MaxMap Bytes Int64 :=
  fun name =>
    match db.syncNodes.find? fun node => node.deviceName = name with
    | none => ⊥
    | some node =>
        Table.column (·.deviceId) (·.seqNo) (db.stateRows stateHash)
          node.deviceId

/-- The hash has an entry in the log. -/
def Logged (db : SyncDb) (stateHash : Hash) : Prop :=
  ∃ entry ∈ db.syncLog, entry.stateHash = stateHash

theorem stateIdOf_eq_some {db : SyncDb}
    (unique : (db.syncLog.map (·.stateHash)).Nodup)
    {entry : SyncLogEntry} (member : entry ∈ db.syncLog) :
    db.stateIdOf entry.stateHash = some entry.stateId := by
  rw [stateIdOf, (Table.find?_eq_some_iff (·.stateHash) unique).mpr
    ⟨member, rfl⟩]
  rfl

theorem stateIdOf_eq_none {db : SyncDb} {stateHash : Hash}
    (unlogged : ¬ db.Logged stateHash) : db.stateIdOf stateHash = none := by
  unfold stateIdOf
  rw [Option.map_eq_none_iff, List.find?_eq_none]
  intro entry member sameHash
  exact unlogged ⟨entry, member, by simpa using sameHash⟩

theorem snapshot_of_unlogged {db : SyncDb} {stateHash : Hash}
    (unlogged : ¬ db.Logged stateHash) : db.snapshot stateHash = ⊥ := by
  funext name
  unfold snapshot
  cases db.syncNodes.find? fun node => node.deviceName = name with
  | none => rfl
  | some node =>
      simp only [stateRows, stateIdOf_eq_none unlogged]
      rfl

theorem lookupSyncLog_pos_iff {db : SyncDb}
    (wellFormed : WellFormed ndn sha256 db) (stateHash : Hash) :
    0 < db.lookupSyncLog stateHash ↔ db.Logged stateHash := by
  constructor
  · intro positive
    by_contra unlogged
    simp [lookupSyncLog, stateIdOf_eq_none unlogged] at positive
  · rintro ⟨entry, member, rfl⟩
    rw [lookupSyncLog, stateIdOf_eq_some wellFormed.hashesUnique member]
    exact (wellFormed.stateIdsBounded entry member).1

theorem mem_stateRows {db : SyncDb}
    (unique : (db.syncLog.map (·.stateHash)).Nodup)
    {entry : SyncLogEntry} (member : entry ∈ db.syncLog)
    {row : SyncStateNode} :
    row ∈ db.stateRows entry.stateHash ↔
      row ∈ db.syncStateNodes ∧ row.stateId = entry.stateId := by
  simp [stateRows, stateIdOf_eq_some unique member]

namespace Snapshot

variable {db : SyncDb} {entry : SyncLogEntry} {rows : List SyncNode}

theorem mem_stateRows (snapshot : Snapshot ndn sha256 db entry rows)
    (unique : (db.syncLog.map (·.stateHash)).Nodup)
    (member : entry ∈ db.syncLog) {row : SyncStateNode} :
    row ∈ db.stateRows entry.stateHash ↔
      row.stateId = entry.stateId ∧
        ∃ source ∈ rows, source.deviceId = row.deviceId ∧
          source.seqNo = row.seqNo := by
  rw [SyncDb.mem_stateRows unique member]
  obtain ⟨stateId, deviceId, seqNo⟩ := row
  constructor
  · rintro ⟨stored, rfl⟩
    exact ⟨rfl, (snapshot.stored deviceId seqNo).mp stored⟩
  · rintro ⟨rfl, source⟩
    exact ⟨(snapshot.stored deviceId seqNo).mpr source, rfl⟩

theorem row_eq_of_deviceId (snapshot : Snapshot ndn sha256 db entry rows)
    (idsUnique : (db.syncNodes.map (·.deviceId)).Nodup)
    {left right : SyncNode} (leftIn : left ∈ rows) (rightIn : right ∈ rows)
    (same : left.deviceId = right.deviceId) : left = right := by
  obtain ⟨leftNow, leftNowIn, leftId, leftName, -⟩ :=
    snapshot.known left leftIn
  obtain ⟨rightNow, rightNowIn, rightId, rightName, -⟩ :=
    snapshot.known right rightIn
  have sameNow : leftNow = rightNow :=
    Table.row_unique (·.deviceId) idsUnique leftNowIn rightNowIn
      (by rw [leftId, rightId, same])
  apply Table.row_unique (·.deviceName) snapshot.named.unique
    leftIn rightIn
  rw [← leftName, ← rightName, sameNow]

theorem column_eq_coe_iff (snapshot : Snapshot ndn sha256 db entry rows)
    (wellFormed : WellFormed ndn sha256 db) (member : entry ∈ db.syncLog)
    {deviceId : Nat} {seqNo : Int64} :
    Table.column (·.deviceId) (·.seqNo) (db.stateRows entry.stateHash)
        deviceId = seqNo ↔
      ∃ row ∈ rows, row.deviceId = deviceId ∧ row.seqNo = seqNo := by
  constructor
  · intro read
    obtain ⟨row, rowIn, rfl, rfl⟩ := Table.mem_of_column_eq read
    exact ((snapshot.mem_stateRows wellFormed.hashesUnique member).mp rowIn).2
  · rintro ⟨row, rowIn, rfl, rfl⟩
    have stored : (⟨entry.stateId, row.deviceId, row.seqNo⟩ : SyncStateNode) ∈
        db.stateRows entry.stateHash :=
      (snapshot.mem_stateRows wellFormed.hashesUnique member).mpr
        ⟨rfl, row, rowIn, rfl, rfl⟩
    cases read : Table.column (·.deviceId) (·.seqNo)
        (db.stateRows entry.stateHash) row.deviceId with
    | bot =>
        exact (Table.column_eq_bot_iff.mp read _ stored rfl).elim
    | coe other =>
        obtain ⟨found, foundIn, sameId, rfl⟩ := Table.mem_of_column_eq read
        obtain ⟨-, source, sourceIn, sourceId, sourceSeq⟩ :=
          (snapshot.mem_stateRows wellFormed.hashesUnique member).mp foundIn
        have same : source = row :=
          snapshot.row_eq_of_deviceId wellFormed.idsUnique sourceIn rowIn
            (sourceId.trans sameId)
        rw [← sourceSeq, same]

theorem snapshot_eq (snapshot : Snapshot ndn sha256 db entry rows)
    (wellFormed : WellFormed ndn sha256 db) (member : entry ∈ db.syncLog) :
    db.snapshot entry.stateHash = seqOf rows := by
  funext name
  cases remembered : seqOf rows name with
  | bot =>
      have absent := Table.column_eq_bot_iff.mp remembered
      unfold SyncDb.snapshot
      cases found : db.syncNodes.find? fun node => node.deviceName = name with
      | none => rfl
      | some node =>
          have nodeIn := List.mem_of_find?_eq_some found
          have nodeName : node.deviceName = name := by
            simpa using List.find?_some found
          cases read : Table.column (·.deviceId) (·.seqNo)
              (db.stateRows entry.stateHash) node.deviceId with
          | bot => exact read
          | coe value =>
              obtain ⟨row, rowIn, sameId, -⟩ :=
                (snapshot.column_eq_coe_iff wellFormed member).mp read
              obtain ⟨current, currentIn, currentId, currentName, -⟩ :=
                snapshot.known row rowIn
              have same : current = node :=
                Table.row_unique (·.deviceId) wellFormed.idsUnique
                  currentIn nodeIn (currentId.trans sameId)
              exact (absent row rowIn
                (by rw [← currentName, same, nodeName])).elim
  | coe value =>
      obtain ⟨row, rowIn, rfl, rfl⟩ := Table.mem_of_column_eq remembered
      obtain ⟨current, currentIn, currentId, currentName, -⟩ :=
        snapshot.known row rowIn
      have found : db.syncNodes.find?
          (fun node => node.deviceName = row.deviceName) = some current :=
        (Table.find?_eq_some_iff (·.deviceName)
          wellFormed.named.unique).mpr ⟨currentIn, currentName⟩
      simp only [SyncDb.snapshot, found]
      apply (snapshot.column_eq_coe_iff wellFormed member).mpr
      exact ⟨row, rowIn, currentId.symm, rfl⟩

theorem le_seqMap (snapshot : Snapshot ndn sha256 db entry rows)
    (unique : (db.syncNodes.map (·.deviceName)).Nodup) :
    seqOf rows ≤ db.seqMap := by
  intro name
  cases remembered : seqOf rows name with
  | bot => exact bot_le
  | coe value =>
      obtain ⟨row, rowIn, rfl, rfl⟩ := Table.mem_of_column_eq remembered
      obtain ⟨current, currentIn, -, currentName, grown⟩ :=
        snapshot.known row rowIn
      have stored : db.seqMap row.deviceName = current.seqNo := by
        rw [← currentName]
        exact Table.column_of_mem unique currentIn
      rw [stored]
      exact WithBot.coe_le_coe.mpr grown

end Snapshot

theorem snapshot_le_seqMap {db : SyncDb}
    (wellFormed : WellFormed ndn sha256 db) (stateHash : Hash) :
    db.snapshot stateHash ≤ db.seqMap := by
  by_cases logged : db.Logged stateHash
  · obtain ⟨entry, member, rfl⟩ := logged
    obtain ⟨rows, remembered⟩ := wellFormed.snapshots entry member
    rw [remembered.snapshot_eq wellFormed member]
    exact remembered.le_seqMap wellFormed.named.unique
  · rw [snapshot_of_unlogged logged]
    exact bot_le

end SyncDb

end ChronoShare
