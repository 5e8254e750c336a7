import ChronoShare.Ndn.Uri
import ChronoShare.SyncLog.Differences

/-!
# Exchange of differences between two logs

Every reachable log is well formed.  Consequently the answer of one log to the
digest of another one merges, entry by entry, into the join of the two maps.
-/

namespace ChronoShare

/-- The pairs a receiver inserts, whatever the type of an entry. -/
def entriesOf (msg : SyncStateMsg) : List (Bytes × Int64) :=
  msg.map fun state => (state.name, (state.seq.getD 0).toInt64)

theorem entriesOf_eq_updatesOf {msg : SyncStateMsg}
    (updates : ∀ state ∈ msg, state.type = .update) :
    entriesOf msg = updatesOf msg := by
  induction msg with
  | nil => rfl
  | cons state msg induction =>
      have headUpdate := updates state (by simp)
      have tail := induction fun other member =>
        updates other (List.mem_cons_of_mem _ member)
      simp only [entriesOf, updatesOf, List.map_cons] at tail ⊢
      rw [List.filterMap_cons, headUpdate, tail]

namespace SyncDb

variable {Name : Type} {ndn : NameOps Name} {sha256 : Bytes → Bytes}

/-- Insert named numbers one after the other. -/
def insertAll (db : SyncDb) (entries : List (Bytes × Int64)) : SyncDb :=
  entries.foldl (fun current entry =>
    current.insertSyncNode entry.1 entry.2) db

theorem wellFormed_insertAll {db : SyncDb}
    (wellFormed : WellFormed ndn sha256 db) {entries : List (Bytes × Int64)}
    (encoded : ∀ entry ∈ entries, ∃ name, entry.1 = ndn.wire name) :
    WellFormed ndn sha256 (db.insertAll entries) := by
  induction entries generalizing db with
  | nil => exact wellFormed
  | cons entry entries induction =>
      obtain ⟨name, sameName⟩ := encoded entry (by simp)
      have inserted : (db.insertSyncNode entry.1 entry.2).WellFormed
          ndn sha256 := by
        rw [sameName]
        exact (insertSyncNode_nodesGrown wellFormed name entry.2).wellFormed
          wellFormed
      exact induction inserted fun other member =>
        encoded other (List.mem_cons_of_mem _ member)

theorem seqMap_insertAll (db : SyncDb) (entries : List (Bytes × Int64)) :
    (db.insertAll entries).seqMap = db.seqMap.raiseAll entries := by
  induction entries generalizing db with
  | nil => rfl
  | cons entry entries induction =>
      rw [MaxMap.raiseAll_cons, ← seqMap_insertSyncNode]
      exact induction _

theorem encoded_of_mem_updatesOf {db : SyncDb}
    (wellFormed : WellFormed ndn sha256 db) {oldHash newHash : Hash}
    {includeOldSeq : Bool} {entry : Bytes × Int64}
    (member : entry ∈ updatesOf
      (db.findStateDifferences oldHash newHash includeOldSeq)) :
    ∃ name, entry.1 = ndn.wire name := by
  obtain ⟨state, stateIn, -, sameName, -⟩ := mem_updatesOf.mp member
  obtain ⟨node, nodeIn, -, rfl⟩ :=
    (mem_findStateDifferences wellFormed).mp stateIn
  rw [← sameName]
  exact wellFormed.named.encoded node nodeIn

end SyncDb

namespace SyncLog

open SyncDb

section Exchange

variable {Name : Type} {ndn : NameOps Name} {sha256 : Bytes → Bytes}

/-- The database is well formed and the local row is the one of the local
name. -/
structure WellFormed (ndn : NameOps Name) (sha256 : Bytes → Bytes)
    (log : SyncLog Name) : Prop where
  db : log.db.WellFormed ndn sha256
  localRow : ∃ node ∈ log.db.syncNodes,
    node.deviceId = log.localDeviceId ∧
      node.deviceName = ndn.wire log.localName

theorem WellFormed.of_nodesGrown {log : SyncLog Name} {after : SyncDb}
    (wellFormed : WellFormed ndn sha256 log)
    (grown : NodesGrown ndn log.db after) :
    WellFormed ndn sha256 { log with db := after } where
  db := grown.wellFormed wellFormed.db
  localRow := by
    obtain ⟨node, nodeIn, nodeId, nodeName⟩ := wellFormed.localRow
    obtain ⟨current, currentIn, currentId, currentName, -⟩ :=
      grown.kept node nodeIn
    exact ⟨current, currentIn, currentId.trans nodeId,
      currentName.trans nodeName⟩

theorem WellFormed.remember {log : SyncLog Name}
    (wellFormed : WellFormed ndn sha256 log) :
    WellFormed ndn sha256 (log.rememberStateInStateLog sha256).2 where
  db := wellFormed_remember wellFormed.db
  localRow := wellFormed.localRow

/-- A constructor records zero for its device, whose row is the local one, and
touches nothing else. -/
theorem construct_cases {db : SyncDb} {localName : Name} {log : SyncLog Name}
    (constructed : construct ndn db localName = some log) :
    log.db = db.insertSyncNode (ndn.wire localName) 0 ∧
      log.localName = localName ∧
      ∃ row ∈ log.db.syncNodes, row.deviceId = log.localDeviceId ∧
        row.deviceName = ndn.wire localName := by
  unfold construct at constructed
  cases found : (db.insertSyncNode (ndn.wire localName) 0).syncNodes.find?
      fun row => row.deviceName = ndn.wire localName with
  | none => simp [found] at constructed
  | some row =>
      simp only [found, Option.some.injEq] at constructed
      subst constructed
      exact ⟨rfl, rfl, row, List.mem_of_find?_eq_some found, rfl,
        by simpa using List.find?_some found⟩

private theorem wellFormed_construct {db : SyncDb} {localName : Name}
    {log : SyncLog Name} (constructed : construct ndn db localName = some log)
    (wellFormed : (db.insertSyncNode (ndn.wire localName) 0).WellFormed
      ndn sha256) :
    WellFormed ndn sha256 log := by
  obtain ⟨sameDb, sameName, localRow⟩ := construct_cases constructed
  rw [← sameDb] at wellFormed
  rw [← sameName] at localRow
  exact ⟨wellFormed, localRow⟩

private theorem wellFormed_first (localName : Name) :
    (SyncDb.empty.insertSyncNode (ndn.wire localName) 0).WellFormed
      ndn sha256 := by
  constructor <;> simp [SyncDb.empty, insertSyncNode]
  constructor <;> simp

theorem WellFormed.reopen {log reopened : SyncLog Name} {localName : Name}
    (wellFormed : WellFormed ndn sha256 log)
    (constructed : construct ndn log.db localName = some reopened) :
    WellFormed ndn sha256 reopened := by
  apply wellFormed_construct constructed
  exact (insertSyncNode_nodesGrown wellFormed.db localName 0).wellFormed
    wellFormed.db

theorem Reachable.wellFormed {log : SyncLog Name}
    (reachable : Reachable ndn sha256 log) : WellFormed ndn sha256 log := by
  induction reachable with
  | @construct localName log constructed =>
      exact wellFormed_construct constructed (wellFormed_first localName)
  | reopen _ constructed induction => exact induction.reopen constructed
  | updateDeviceSeqNo name seqNo _ induction =>
      exact induction.of_nodesGrown
        (insertSyncNode_nodesGrown induction.db name seqNo)
  | @getNextLocalSeqNo log next seqNo _ consumed induction =>
      unfold SyncLog.getNextLocalSeqNo at consumed
      cases found : log.db.syncNodes.find? fun row =>
          row.deviceId = log.localDeviceId with
      | none => simp [found] at consumed
      | some row =>
          simp only [found, Option.some.injEq, Prod.mk.injEq] at consumed
          rw [← consumed.2]
          exact induction.of_nodesGrown
            (updateSyncNode_nodesGrown induction.db _ _)
  | updateLocalSeqNo seqNo _ induction =>
      exact induction.of_nodesGrown
        (updateSyncNode_nodesGrown induction.db _ _)
  | updateLocator deviceName locator _ induction =>
      exact induction.of_nodesGrown
        (updateLocator_nodesGrown induction.db _ _)
  | rememberStateInStateLog _ induction => exact induction.remember

/-- Insert every entry of a message, under the names it carries. -/
def insertEntries (log : SyncLog Name) (msg : SyncStateMsg) : SyncLog Name :=
  { log with db := log.db.insertAll (entriesOf msg) }

@[simp] theorem insertEntries_db (log : SyncLog Name) (msg : SyncStateMsg) :
    (log.insertEntries msg).db = log.db.insertAll (entriesOf msg) :=
  rfl

/-- The log right after it is opened over an empty database. -/
def opened (ndn : NameOps Name) (localName : Name) : SyncLog Name :=
  ⟨⟨[⟨1, ndn.wire localName, 0, none⟩], [], [], 1, 0⟩, localName, 1⟩

theorem opened_reachable (localName : Name) :
    Reachable ndn sha256 (opened ndn localName) := by
  have first : construct ndn SyncDb.empty localName =
      some (opened ndn localName) := by
    simp [construct, SyncDb.empty, insertSyncNode, opened]
  exact .construct first

@[simp] theorem rememberStateInStateLog_fst (log : SyncLog Name) :
    (log.rememberStateInStateLog sha256).1 =
      digest sha256 log.db.syncNodes :=
  rfl

@[simp] theorem rememberStateInStateLog_seqMap (log : SyncLog Name) :
    (log.rememberStateInStateLog sha256).2.db.seqMap = log.db.seqMap :=
  rfl

theorem snapshot_remembered {log : SyncLog Name}
    (wellFormed : WellFormed ndn sha256 log) :
    (log.rememberStateInStateLog sha256).2.db.snapshot
        (log.rememberStateInStateLog sha256).1 =
      (log.rememberStateInStateLog sha256).2.db.seqMap :=
  snapshot_remember_digest wellFormed.db

/-- Differences towards the remembered state of a log, inserted into a map
above the older state, join the two current maps. -/
theorem seqMap_insertEntries (asker : SyncLog Name)
    {answerer : SyncLog Name} {oldHash : Hash}
    (wellFormed : WellFormed ndn sha256 answerer)
    (above : (answerer.rememberStateInStateLog sha256).2.db.snapshot oldHash ≤
      asker.db.seqMap) :
    let answer := (answerer.rememberStateInStateLog sha256).2.db.findStateDifferences
      oldHash (answerer.rememberStateInStateLog sha256).1
    (∀ state ∈ answer, state.type = .update) ∧
      (∀ entry ∈ entriesOf answer, ∃ name, entry.1 = ndn.wire name) ∧
      (asker.insertEntries answer).db.seqMap =
        asker.db.seqMap ⊔ answerer.db.seqMap := by
  intro answer
  have remembered := wellFormed.remember.db
  have current := snapshot_remembered wellFormed
  have grown : (answerer.rememberStateInStateLog sha256).2.db.snapshot oldHash ≤
      (answerer.rememberStateInStateLog sha256).2.db.snapshot
        (answerer.rememberStateInStateLog sha256).1 := by
    rw [current]
    exact snapshot_le_seqMap remembered oldHash
  have updates : ∀ state ∈ answer, state.type = .update :=
    fun state member => type_eq_update remembered grown member
  have sameEntries := entriesOf_eq_updatesOf updates
  refine ⟨updates, ?_, ?_⟩
  · intro entry member
    rw [sameEntries] at member
    exact encoded_of_mem_updatesOf remembered member
  · rw [insertEntries_db, seqMap_insertAll, sameEntries, MaxMap.raiseAll_differences
      (differences_findStateDifferences remembered _ _ _) above, current]
    rfl

/-- Whatever two logs went through: once both have remembered their state, the
differences reported from the asker's digest turn the asker's map and digest
into the answerer's, and the differences reported from the empty state turn
any map into the pointwise maximum. -/
theorem exchange_reaches_join (selfDelimiting : SelfDelimiting ndn.wire)
    (collisionFree : CollisionFree sha256) {asker answerer : SyncLog Name}
    (askerReachable : Reachable ndn sha256 asker)
    (answererReachable : Reachable ndn sha256 answerer) :
    let remembered := (asker.rememberStateInStateLog sha256).2
    let askerHash := (asker.rememberStateInStateLog sha256).1
    let store := (answerer.rememberStateInStateLog sha256).2
    let storeHash := (answerer.rememberStateInStateLog sha256).1
    let answer := store.db.findStateDifferences askerHash storeHash
    let everything := store.db.findStateDifferences Hash.origin storeHash
    (store.db.Logged askerHash →
      (∀ state ∈ answer, state.type = .update) ∧
        (remembered.insertEntries answer).db.seqMap = store.db.seqMap ∧
        ((remembered.insertEntries answer).rememberStateInStateLog sha256).1 =
          storeHash) ∧
      (asker.insertEntries everything).db.seqMap =
        asker.db.seqMap ⊔ store.db.seqMap := by
  intro remembered askerHash store storeHash answer everything
  have askerFormed := askerReachable.wellFormed
  have answererFormed := answererReachable.wellFormed
  have storeFormed := answererFormed.remember.db
  constructor
  · intro logged
    have askerSnapshot : store.db.snapshot askerHash = asker.db.seqMap :=
      snapshot_eq_of_digest selfDelimiting collisionFree storeFormed
        askerFormed.db.named logged
    obtain ⟨updates, encoded, joined⟩ :=
      seqMap_insertEntries remembered answererFormed
        askerSnapshot.le
    have below : asker.db.seqMap ≤ store.db.seqMap := by
      rw [← askerSnapshot]
      exact snapshot_le_seqMap storeFormed askerHash
    have sameMap : (remembered.insertEntries answer).db.seqMap =
        store.db.seqMap :=
      joined.trans (sup_eq_right.mpr below)
    have insertedFormed : (remembered.insertEntries answer).db.WellFormed
        ndn sha256 :=
      wellFormed_insertAll askerFormed.remember.db encoded
    refine ⟨updates, sameMap, ?_⟩
    calc ((remembered.insertEntries answer).rememberStateInStateLog sha256).1
        = digest sha256 (remembered.insertEntries answer).db.syncNodes :=
          rememberStateInStateLog_fst _
      _ = digest sha256 answerer.db.syncNodes :=
          digest_congr insertedFormed.named.unique
            answererFormed.db.named.unique sameMap
      _ = storeHash := (rememberStateInStateLog_fst answerer).symm
  · have originUnknown : store.db.snapshot Hash.origin = ⊥ :=
      snapshot_of_unlogged (not_logged_origin collisionFree storeFormed)
    obtain ⟨-, -, joined⟩ := seqMap_insertEntries asker answererFormed
      (originUnknown.le.trans bot_le)
    exact joined

end Exchange

/-- A log of `/alex` with one action that has heard of `/bob`. -/
def alexLog : SyncLog Name :=
  ((opened Name.uriOps Name.alex).updateLocalSeqNo 1).updateDeviceSeqNo
    Name.uriOps Name.bob 0

/-- A log of `/bob` that acts after remembering the state of `/alex`. -/
def bobLog : SyncLog Name :=
  (((opened Name.uriOps Name.bob).updateDeviceSeqNo Name.uriOps Name.alex
    1).rememberStateInStateLog taggedDigest).2.updateLocalSeqNo 1

theorem alexLog_reachable : Reachable Name.uriOps taggedDigest alexLog :=
  .updateDeviceSeqNo _ _ (.updateLocalSeqNo _ (opened_reachable _))

theorem bobLog_reachable : Reachable Name.uriOps taggedDigest bobLog :=
  .updateLocalSeqNo _ (.rememberStateInStateLog
    (.updateDeviceSeqNo _ _ (opened_reachable _)))

theorem bobLog_syncLog :
    bobLog.db.syncLog =
      [⟨1, (alexLog.rememberStateInStateLog taggedDigest).1⟩] := by
  decide +kernel

theorem exchange_reaches_join_alex_bob :
    let remembered := (alexLog.rememberStateInStateLog taggedDigest).2
    let askerHash := (alexLog.rememberStateInStateLog taggedDigest).1
    let store := (bobLog.rememberStateInStateLog taggedDigest).2
    let storeHash := (bobLog.rememberStateInStateLog taggedDigest).1
    let answer := store.db.findStateDifferences askerHash storeHash
    let everything := store.db.findStateDifferences Hash.origin storeHash
    store.db.Logged askerHash ∧
      (∀ state ∈ answer, state.type = .update) ∧
      (remembered.insertEntries answer).db.seqMap = store.db.seqMap ∧
      ((remembered.insertEntries answer).rememberStateInStateLog
        taggedDigest).1 = storeHash ∧
      (alexLog.insertEntries everything).db.seqMap =
        alexLog.db.seqMap ⊔ store.db.seqMap := by
  intro remembered askerHash store storeHash answer everything
  have logged : store.db.Logged askerHash := by
    apply logged_remember_iff.mpr
    left
    exact ⟨_, bobLog_syncLog ▸ List.mem_singleton_self _, rfl⟩
  obtain ⟨merge, join⟩ := exchange_reaches_join
    Name.wireEncode_selfDelimiting taggedDigest_collisionFree
    alexLog_reachable bobLog_reachable
  obtain ⟨updates, sameMap, sameHash⟩ := merge logged
  exact ⟨logged, updates, sameMap, sameHash, join⟩

end SyncLog

end ChronoShare
