import ChronoShare.SyncLog.Invariant

/-!
# Effects of the operations

Operations on the table of devices leave the snapshots alone and record one
number in the current map.  Remembering the state leaves the current map alone
and makes it the snapshot of its digest.
-/

namespace ChronoShare

namespace SyncDb

variable {Name : Type} {ndn : NameOps Name} {sha256 : Bytes → Bytes}

/-- `after` differs from `before` only in the table of devices, where rows
stay under their keys and numbers grow. -/
structure NodesGrown (ndn : NameOps Name) (before after : SyncDb) : Prop where
  syncLog : after.syncLog = before.syncLog
  syncStateNodes : after.syncStateNodes = before.syncStateNodes
  lastStateId : after.lastStateId = before.lastStateId
  kept : ∀ row ∈ before.syncNodes, ∃ current ∈ after.syncNodes,
    current.deviceId = row.deviceId ∧
      current.deviceName = row.deviceName ∧ row.seqNo ≤ current.seqNo
  named : NamedRows ndn after.syncNodes
  idsUnique : (after.syncNodes.map (·.deviceId)).Nodup
  idsBounded : ∀ row ∈ after.syncNodes, row.deviceId ≤ after.lastDeviceId

namespace NodesGrown

variable {before after : SyncDb}

theorem nonempty (grown : NodesGrown ndn before after)
    (wellFormed : WellFormed ndn sha256 before) : after.syncNodes ≠ [] := by
  obtain ⟨row, rowIn⟩ := List.exists_mem_of_ne_nil _ wellFormed.nonempty
  obtain ⟨current, currentIn, -⟩ := grown.kept row rowIn
  exact List.ne_nil_of_mem currentIn

theorem snapshot (grown : NodesGrown ndn before after)
    {entry : SyncLogEntry} {rows : List SyncNode}
    (remembered : Snapshot ndn sha256 before entry rows) :
    Snapshot ndn sha256 after entry rows where
  hash := remembered.hash
  named := remembered.named
  nonempty := remembered.nonempty
  stored := by
    rw [grown.syncStateNodes]
    exact remembered.stored
  known := by
    intro row rowIn
    obtain ⟨middle, middleIn, middleId, middleName, below⟩ :=
      remembered.known row rowIn
    obtain ⟨current, currentIn, currentId, currentName, above⟩ :=
      grown.kept middle middleIn
    exact ⟨current, currentIn, currentId.trans middleId,
      currentName.trans middleName, below.trans above⟩

theorem seqMap_le (grown : NodesGrown ndn before after) :
    before.seqMap ≤ after.seqMap := by
  intro name
  cases stored : before.seqMap name with
  | bot => exact bot_le
  | coe seqNo =>
      obtain ⟨row, rowIn, rfl, rfl⟩ := Table.mem_of_column_eq stored
      obtain ⟨current, currentIn, -, currentName, above⟩ :=
        grown.kept row rowIn
      have read : after.seqMap current.deviceName = current.seqNo :=
        Table.column_of_mem grown.named.unique currentIn
      rw [← currentName, read]
      exact WithBot.coe_le_coe.mpr above

theorem wellFormed (grown : NodesGrown ndn before after)
    (wellFormed : WellFormed ndn sha256 before) :
    WellFormed ndn sha256 after where
  named := grown.named
  nonempty := grown.nonempty wellFormed
  idsUnique := grown.idsUnique
  idsBounded := grown.idsBounded
  hashesUnique := by
    rw [grown.syncLog]
    exact wellFormed.hashesUnique
  stateIdsUnique := by
    rw [grown.syncLog]
    exact wellFormed.stateIdsUnique
  stateIdsBounded := by
    rw [grown.syncLog, grown.lastStateId]
    exact wellFormed.stateIdsBounded
  stateRowsBounded := by
    rw [grown.syncStateNodes, grown.lastStateId]
    exact wellFormed.stateRowsBounded
  stateRowsUnique := by
    rw [grown.syncStateNodes]
    exact wellFormed.stateRowsUnique
  snapshots := by
    rw [grown.syncLog]
    intro entry member
    obtain ⟨rows, remembered⟩ := wellFormed.snapshots entry member
    exact ⟨rows, grown.snapshot remembered⟩

theorem logged_iff (grown : NodesGrown ndn before after) (stateHash : Hash) :
    after.Logged stateHash ↔ before.Logged stateHash := by
  unfold Logged
  rw [grown.syncLog]

theorem snapshot_eq (grown : NodesGrown ndn before after)
    (wellFormed : WellFormed ndn sha256 before) (stateHash : Hash) :
    after.snapshot stateHash = before.snapshot stateHash := by
  by_cases logged : before.Logged stateHash
  · obtain ⟨entry, member, rfl⟩ := logged
    obtain ⟨rows, remembered⟩ := wellFormed.snapshots entry member
    rw [remembered.snapshot_eq wellFormed member]
    apply (grown.snapshot remembered).snapshot_eq
      (grown.wellFormed wellFormed)
    rw [grown.syncLog]
    exact member
  · rw [snapshot_of_unlogged logged, snapshot_of_unlogged]
    rwa [grown.logged_iff]

end NodesGrown

theorem nodesGrown_map {db : SyncDb} (wellFormed : WellFormed ndn sha256 db)
    {rewrite : SyncNode → SyncNode}
    (sameId : ∀ row, (rewrite row).deviceId = row.deviceId)
    (sameName : ∀ row, (rewrite row).deviceName = row.deviceName)
    (grows : ∀ row, row.seqNo ≤ (rewrite row).seqNo) :
    NodesGrown ndn db
      { db with syncNodes := db.syncNodes.map rewrite } where
  syncLog := rfl
  syncStateNodes := rfl
  lastStateId := rfl
  kept := by
    intro row rowIn
    exact ⟨rewrite row, List.mem_map_of_mem rowIn, sameId row, sameName row,
      grows row⟩
  named := {
    unique := by
      simpa [Function.comp_def, sameName] using wellFormed.named.unique
    encoded := by
      intro row rowIn
      obtain ⟨source, sourceIn, rfl⟩ := List.mem_map.mp rowIn
      rw [sameName]
      exact wellFormed.named.encoded source sourceIn }
  idsUnique := by
    simpa [Function.comp_def, sameId] using wellFormed.idsUnique
  idsBounded := by
    intro row rowIn
    obtain ⟨source, sourceIn, rfl⟩ := List.mem_map.mp rowIn
    rw [sameId]
    exact wellFormed.idsBounded source sourceIn

theorem nodesGrown_append {db : SyncDb}
    (named : NamedRows ndn db.syncNodes)
    (idsUnique : (db.syncNodes.map (·.deviceId)).Nodup)
    (idsBounded : ∀ row ∈ db.syncNodes, row.deviceId ≤ db.lastDeviceId)
    (name : Name) (seqNo : Int64)
    (absent : ∀ row ∈ db.syncNodes, row.deviceName ≠ ndn.wire name) :
    NodesGrown ndn db
      { db with
        syncNodes := db.syncNodes ++
          [⟨db.lastDeviceId + 1, ndn.wire name, seqNo, none⟩]
        lastDeviceId := db.lastDeviceId + 1 } where
  syncLog := rfl
  syncStateNodes := rfl
  lastStateId := rfl
  kept := by
    intro row rowIn
    exact ⟨row, List.mem_append_left _ rowIn, rfl, rfl, le_rfl⟩
  named := {
    unique := by
      rw [List.map_append, List.nodup_append]
      refine ⟨named.unique, by simp, ?_⟩
      intro first firstIn second secondIn
      obtain ⟨row, rowIn, rfl⟩ := List.mem_map.mp firstIn
      obtain rfl : second = ndn.wire name := by simpa using secondIn
      exact absent row rowIn
    encoded := by
      intro row rowIn
      rcases List.mem_append.mp rowIn with earlier | here
      · exact named.encoded row earlier
      · rw [List.mem_singleton.mp here]
        exact ⟨name, rfl⟩ }
  idsUnique := by
    rw [List.map_append, List.nodup_append]
    refine ⟨idsUnique, by simp, ?_⟩
    intro first firstIn second secondIn
    obtain ⟨row, rowIn, rfl⟩ := List.mem_map.mp firstIn
    obtain rfl : second = db.lastDeviceId + 1 := by simpa using secondIn
    have bounded := idsBounded row rowIn
    omega
  idsBounded := by
    intro row rowIn
    rcases List.mem_append.mp rowIn with earlier | here
    · exact Nat.le_succ_of_le (idsBounded row earlier)
    · rw [List.mem_singleton.mp here]

theorem insertSyncNode_nodesGrown {db : SyncDb}
    (wellFormed : WellFormed ndn sha256 db) (name : Name) (seqNo : Int64) :
    NodesGrown ndn db (db.insertSyncNode (ndn.wire name) seqNo) := by
  unfold insertSyncNode
  split_ifs with present
  · apply nodesGrown_map wellFormed
    · intro row
      split_ifs <;> rfl
    · intro row
      split_ifs <;> rfl
    · intro row
      split_ifs
      · exact le_max_left _ _
      · exact le_rfl
  · apply nodesGrown_append wellFormed.named wellFormed.idsUnique
      wellFormed.idsBounded
    simpa using present

theorem updateSyncNode_nodesGrown {db : SyncDb}
    (wellFormed : WellFormed ndn sha256 db) (deviceId : Nat) (seqNo : Int64) :
    NodesGrown ndn db (db.updateSyncNode deviceId seqNo) := by
  apply nodesGrown_map wellFormed
  · intro row
    split_ifs <;> rfl
  · intro row
    split_ifs <;> rfl
  · intro row
    split_ifs
    · exact le_max_left _ _
    · exact le_rfl

theorem updateLocator_nodesGrown {db : SyncDb}
    (wellFormed : WellFormed ndn sha256 db) (deviceName locator : Bytes) :
    NodesGrown ndn db (db.updateLocator deviceName locator) := by
  apply nodesGrown_map wellFormed
  · intro row
    split_ifs <;> rfl
  · intro row
    split_ifs <;> rfl
  · intro row
    split_ifs <;> exact le_rfl

theorem seqMap_insertSyncNode (db : SyncDb) (deviceName : Bytes)
    (seqNo : Int64) :
    (db.insertSyncNode deviceName seqNo).seqMap =
      db.seqMap.raise deviceName seqNo := by
  funext wanted
  unfold insertSyncNode
  split_ifs with present
  · change seqOf (db.syncNodes.map _) wanted = _
    rw [seqOf, Table.column_map]
    · by_cases same : wanted = deviceName
      · subst same
        rw [MaxMap.raise_self]
        cases found : db.syncNodes.find? fun row => row.deviceName = wanted with
        | none =>
            simp only [List.any_eq_true, decide_eq_true_eq] at present
            obtain ⟨row, rowIn, rowName⟩ := present
            exact (List.find?_eq_none.mp found row rowIn (by simp [rowName])).elim
        | some row =>
            have rowName : row.deviceName = wanted := by
              simpa using List.find?_some found
            simp [seqMap, seqOf, Table.column, found, rowName]
      · rw [MaxMap.raise_of_ne _ same]
        cases found : db.syncNodes.find? fun row => row.deviceName = wanted with
        | none => simp [seqMap, seqOf, Table.column, found]
        | some row =>
            have rowName : row.deviceName = wanted := by
              simpa using List.find?_some found
            simp [seqMap, seqOf, Table.column, found, rowName, same]
    · intro row
      split_ifs <;> rfl
  · have absent : ∀ row ∈ db.syncNodes, row.deviceName ≠ deviceName := by
      simpa using present
    change seqOf (db.syncNodes ++ _) wanted = _
    by_cases same : wanted = deviceName
    · subst same
      have missing : db.syncNodes.find?
          (fun row => row.deviceName = wanted) = none := by
        simpa using absent
      simp [MaxMap.raise_self, seqMap, seqOf, Table.column,
        List.find?_append, missing]
    · rw [MaxMap.raise_of_ne _ same, seqOf, Table.column_append_of_absent]
      · rfl
      · intro row rowIn
        rw [List.mem_singleton.mp rowIn]
        exact Ne.symm same

theorem seqMap_updateSyncNode {db : SyncDb}
    (wellFormed : WellFormed ndn sha256 db) {node : SyncNode}
    (member : node ∈ db.syncNodes) (seqNo : Int64) :
    (db.updateSyncNode node.deviceId seqNo).seqMap =
      db.seqMap.raise node.deviceName seqNo := by
  funext wanted
  change seqOf (db.syncNodes.map _) wanted = _
  rw [seqOf, Table.column_map]
  · cases found : db.syncNodes.find? fun row => row.deviceName = wanted with
    | none =>
        have different : wanted ≠ node.deviceName := by
          intro same
          exact List.find?_eq_none.mp found node member (by simp [same])
        rw [MaxMap.raise_of_ne _ different]
        simp [seqMap, seqOf, Table.column, found]
    | some row =>
        obtain ⟨rowIn, rowName⟩ := (Table.find?_eq_some_iff
          SyncNode.deviceName wellFormed.named.unique).mp found
        have stored : db.seqMap wanted = row.seqNo := by
          simp [seqMap, seqOf, Table.column, found]
        by_cases same : row.deviceId = node.deviceId
        · have rowEqual : row = node :=
            Table.row_unique SyncNode.deviceId wellFormed.idsUnique
              rowIn member same
          subst rowEqual
          subst rowName
          rw [MaxMap.raise_self, stored]
          simp [Table.column, found]
        · have different : wanted ≠ node.deviceName := by
            intro sameName
            apply same
            rw [Table.row_unique SyncNode.deviceName
              wellFormed.named.unique rowIn member (rowName.trans sameName)]
          rw [MaxMap.raise_of_ne _ different, stored]
          simp [Table.column, found, same]
  · intro row
    split_ifs <;> rfl

theorem seqMap_updateLocator (db : SyncDb) (deviceName locator : Bytes) :
    (db.updateLocator deviceName locator).seqMap = db.seqMap := by
  change seqOf (db.syncNodes.map _) = seqOf db.syncNodes
  rw [seqOf, Table.column_map]
  · have sameSeq : (fun row : SyncNode =>
        (if row.deviceName = deviceName then
          { row with lastKnownLocator := some locator } else row).seqNo) =
        SyncNode.seqNo := by
      funext row
      split_ifs <;> rfl
    rw [sameSeq]
    rfl
  · intro row
    split_ifs <;> rfl

section Remember

variable {db : SyncDb}

@[simp] theorem rememberStateInStateLog_fst :
    (db.rememberStateInStateLog sha256).1 = digest sha256 db.syncNodes :=
  rfl

@[simp] theorem rememberStateInStateLog_syncNodes :
    (db.rememberStateInStateLog sha256).2.syncNodes = db.syncNodes :=
  rfl

@[simp] theorem seqMap_rememberStateInStateLog :
    (db.rememberStateInStateLog sha256).2.seqMap = db.seqMap :=
  rfl

theorem mem_syncLog_remember {entry : SyncLogEntry} :
    entry ∈ (db.rememberStateInStateLog sha256).2.syncLog ↔
      (entry ∈ db.syncLog ∧ entry.stateHash ≠ digest sha256 db.syncNodes) ∨
        entry = ⟨db.lastStateId + 1, digest sha256 db.syncNodes⟩ := by
  simp [rememberStateInStateLog, insertSyncLog, insertSyncStateNodes]

theorem mem_syncStateNodes_remember {row : SyncStateNode} :
    row ∈ (db.rememberStateInStateLog sha256).2.syncStateNodes ↔
      (row ∈ db.syncStateNodes ∧ ∀ entry ∈ db.syncLog,
        entry.stateHash = digest sha256 db.syncNodes →
          entry.stateId ≠ row.stateId) ∨
      (row.stateId = db.lastStateId + 1 ∧ ∃ node ∈ db.syncNodes,
        node.deviceId = row.deviceId ∧ node.seqNo = row.seqNo) := by
  obtain ⟨stateId, deviceId, seqNo⟩ := row
  simp only [rememberStateInStateLog, insertSyncLog, insertSyncStateNodes,
    List.mem_append, List.mem_filter, List.mem_map, SyncStateNode.mk.injEq]
  constructor
  · rintro (⟨stored, unreplaced⟩ | ⟨node, nodeIn, rfl, rfl, rfl⟩)
    · left
      refine ⟨stored, ?_⟩
      intro entry entryIn sameHash sameId
      apply of_decide_eq_true unreplaced
      simp only [List.any_eq_true, List.mem_filter, decide_eq_true_eq]
      exact ⟨entry, ⟨entryIn, sameHash⟩, sameId⟩
    · exact Or.inr ⟨rfl, node, nodeIn, rfl, rfl⟩
  · rintro (⟨stored, unreplaced⟩ | ⟨rfl, node, nodeIn, rfl, rfl⟩)
    · left
      refine ⟨stored, decide_eq_true ?_⟩
      intro replaced
      simp only [List.any_eq_true, List.mem_filter, decide_eq_true_eq]
        at replaced
      obtain ⟨entry, ⟨entryIn, sameHash⟩, sameId⟩ := replaced
      exact unreplaced entry entryIn sameHash sameId
    · exact Or.inr ⟨node, nodeIn, rfl, rfl, rfl⟩

theorem snapshot_remember_new (wellFormed : WellFormed ndn sha256 db) :
    Snapshot ndn sha256 (db.rememberStateInStateLog sha256).2
      ⟨db.lastStateId + 1, digest sha256 db.syncNodes⟩ db.syncNodes where
  hash := rfl
  named := wellFormed.named
  nonempty := wellFormed.nonempty
  stored := by
    intro deviceId seqNo
    rw [mem_syncStateNodes_remember]
    constructor
    · rintro (⟨stored, -⟩ | ⟨-, source⟩)
      · have bounded := wellFormed.stateRowsBounded _ stored
        simp only at bounded
        omega
      · exact source
    · intro source
      exact Or.inr ⟨rfl, source⟩
  known := by
    intro row rowIn
    exact ⟨row, rowIn, rfl, rfl, le_rfl⟩

theorem snapshot_remember_old (wellFormed : WellFormed ndn sha256 db)
    {entry : SyncLogEntry} (member : entry ∈ db.syncLog)
    (different : entry.stateHash ≠ digest sha256 db.syncNodes)
    {rows : List SyncNode}
    (remembered : Snapshot ndn sha256 db entry rows) :
    Snapshot ndn sha256 (db.rememberStateInStateLog sha256).2 entry rows where
  hash := remembered.hash
  named := remembered.named
  nonempty := remembered.nonempty
  stored := by
    intro deviceId seqNo
    rw [mem_syncStateNodes_remember, ← remembered.stored deviceId seqNo]
    constructor
    · rintro (⟨stored, -⟩ | ⟨sameId, -⟩)
      · exact stored
      · have bounded := (wellFormed.stateIdsBounded entry member).2
        simp only at sameId
        omega
    · intro stored
      left
      refine ⟨stored, ?_⟩
      intro other otherIn otherHash sameId
      have same : other = entry :=
        Table.row_unique (·.stateId) wellFormed.stateIdsUnique
          otherIn member sameId
      exact different (same ▸ otherHash)
  known := remembered.known

theorem wellFormed_remember (wellFormed : WellFormed ndn sha256 db) :
    WellFormed ndn sha256 (db.rememberStateInStateLog sha256).2 where
  named := wellFormed.named
  nonempty := wellFormed.nonempty
  idsUnique := wellFormed.idsUnique
  idsBounded := wellFormed.idsBounded
  hashesUnique := by
    change (List.map _ (_ ++ _)).Nodup
    rw [List.map_append, List.nodup_append]
    refine ⟨?_, by simp, ?_⟩
    · exact wellFormed.hashesUnique.sublist
        (List.Sublist.map _ List.filter_sublist)
    · intro first firstIn second secondIn
      obtain ⟨entry, entryIn, rfl⟩ := List.mem_map.mp firstIn
      obtain rfl : second = digest sha256 db.syncNodes := by
        simpa using secondIn
      simpa using (List.mem_filter.mp entryIn).2
  stateIdsUnique := by
    change (List.map _ (_ ++ _)).Nodup
    rw [List.map_append, List.nodup_append]
    refine ⟨?_, by simp, ?_⟩
    · exact wellFormed.stateIdsUnique.sublist
        (List.Sublist.map _ List.filter_sublist)
    · intro first firstIn second secondIn
      obtain ⟨entry, entryIn, rfl⟩ := List.mem_map.mp firstIn
      obtain rfl : second = db.lastStateId + 1 := by simpa using secondIn
      have bounded :=
        (wellFormed.stateIdsBounded entry (List.mem_filter.mp entryIn).1).2
      omega
  stateIdsBounded := by
    intro entry member
    change 0 < entry.stateId ∧ entry.stateId ≤ db.lastStateId + 1
    rcases mem_syncLog_remember.mp member with ⟨old, -⟩ | rfl
    · have bounded := wellFormed.stateIdsBounded entry old
      omega
    · exact ⟨Nat.succ_pos _, le_rfl⟩
  stateRowsBounded := by
    intro row member
    change row.stateId ≤ db.lastStateId + 1
    rcases mem_syncStateNodes_remember.mp member with ⟨old, -⟩ | ⟨here, -⟩
    · exact Nat.le_succ_of_le (wellFormed.stateRowsBounded row old)
    · exact here.le
  stateRowsUnique := by
    apply List.nodup_append.mpr
    refine ⟨wellFormed.stateRowsUnique.filter _, ?_, ?_⟩
    · apply List.Nodup.of_map (·.deviceId)
      simpa [Function.comp_def, insertSyncLog] using wellFormed.idsUnique
    · intro old oldIn new newIn same
      obtain ⟨node, -, rfl⟩ := List.mem_map.mp newIn
      have bounded :=
        wellFormed.stateRowsBounded old (List.mem_filter.mp oldIn).1
      rw [same] at bounded
      exact absurd bounded (Nat.not_succ_le_self _)
  snapshots := by
    intro entry member
    rcases mem_syncLog_remember.mp member with ⟨old, different⟩ | rfl
    · obtain ⟨rows, remembered⟩ := wellFormed.snapshots entry old
      exact ⟨rows, snapshot_remember_old wellFormed old different remembered⟩
    · exact ⟨db.syncNodes, snapshot_remember_new wellFormed⟩

theorem logged_remember_iff {stateHash : Hash} :
    (db.rememberStateInStateLog sha256).2.Logged stateHash ↔
      db.Logged stateHash ∨ stateHash = digest sha256 db.syncNodes := by
  constructor
  · rintro ⟨entry, member, rfl⟩
    rcases mem_syncLog_remember.mp member with ⟨old, -⟩ | rfl
    · exact Or.inl ⟨entry, old, rfl⟩
    · exact Or.inr rfl
  · intro known
    by_cases same : stateHash = digest sha256 db.syncNodes
    · exact ⟨_, mem_syncLog_remember.mpr (Or.inr rfl), same.symm⟩
    · obtain ⟨entry, member, rfl⟩ := known.resolve_right same
      exact ⟨entry, mem_syncLog_remember.mpr (Or.inl ⟨member, same⟩), rfl⟩

theorem snapshot_remember_digest (wellFormed : WellFormed ndn sha256 db) :
    (db.rememberStateInStateLog sha256).2.snapshot
      (digest sha256 db.syncNodes) = db.seqMap :=
  (snapshot_remember_new wellFormed).snapshot_eq
    (wellFormed_remember wellFormed) (mem_syncLog_remember.mpr (Or.inr rfl))

theorem snapshot_remember_of_ne (wellFormed : WellFormed ndn sha256 db)
    {stateHash : Hash} (different : stateHash ≠ digest sha256 db.syncNodes) :
    (db.rememberStateInStateLog sha256).2.snapshot stateHash =
      db.snapshot stateHash := by
  by_cases logged : db.Logged stateHash
  · obtain ⟨entry, member, rfl⟩ := logged
    obtain ⟨rows, remembered⟩ := wellFormed.snapshots entry member
    rw [remembered.snapshot_eq wellFormed member]
    exact (snapshot_remember_old wellFormed member different
      remembered).snapshot_eq (wellFormed_remember wellFormed)
        (mem_syncLog_remember.mpr (Or.inl ⟨member, different⟩))
  · rw [snapshot_of_unlogged logged, snapshot_of_unlogged]
    rw [logged_remember_iff]
    exact fun either => either.elim logged different

theorem snapshot_eq_of_digest (selfDelimiting : SelfDelimiting ndn.wire)
    (collisionFree : CollisionFree sha256)
    (wellFormed : WellFormed ndn sha256 db)
    {rows : List SyncNode} (named : NamedRows ndn rows)
    (logged : db.Logged (digest sha256 rows)) :
    db.snapshot (digest sha256 rows) = seqOf rows := by
  obtain ⟨entry, member, sameHash⟩ := logged
  obtain ⟨remembered, snapshot⟩ := wellFormed.snapshots entry member
  rw [← sameHash, snapshot.snapshot_eq wellFormed member]
  apply seqOf_eq_of_digest_eq selfDelimiting collisionFree snapshot.named named
  rw [← snapshot.hash, sameHash]

theorem snapshot_remember_of_logged (selfDelimiting : SelfDelimiting ndn.wire)
    (collisionFree : CollisionFree sha256)
    (wellFormed : WellFormed ndn sha256 db) {stateHash : Hash}
    (logged : db.Logged stateHash) :
    (db.rememberStateInStateLog sha256).2.snapshot stateHash =
      db.snapshot stateHash := by
  by_cases same : stateHash = digest sha256 db.syncNodes
  · subst same
    rw [snapshot_remember_digest wellFormed, snapshot_eq_of_digest
      selfDelimiting collisionFree wellFormed wellFormed.named logged]
    rfl
  · exact snapshot_remember_of_ne wellFormed same

end Remember

theorem not_logged_origin (collisionFree : CollisionFree sha256) {db : SyncDb}
    (wellFormed : WellFormed ndn sha256 db) : ¬ db.Logged Hash.origin := by
  rintro ⟨entry, member, sameHash⟩
  obtain ⟨rows, snapshot⟩ := wellFormed.snapshots entry member
  apply digest_ne_origin collisionFree snapshot.nonempty
  rw [← snapshot.hash, sameHash]

end SyncDb

end ChronoShare
